import FusedKernel.Operation.Token

/-!
# Words and symbols

Apart from parentheses and commas, a text consists of words, for names, and of symbols, for
operators.  No character belongs to both, so a run of either kind ends where the next piece of
the text begins.

* `IsWord` — letters, digits and underscores, at least one.
* `EndsRun` — what may stand behind a run of characters of a kind.
* `Operator.callee`, `Operator.separator` — what an operator contributes to a text.

Principal results: `run_append_inj` — a run ends in one place only; `callee_wordChar` and
`spelling_symbolChar` — tokens are words and symbols.
-/

set_option autoImplicit false

namespace FusedKernel

/-- What names are made of. -/
def isWordChar (c : Char) : Bool := c.isAlphanum || c == '_'

/-- What the symbols of operators are made of. -/
def isSymbolChar (c : Char) : Bool := ['=', '+', '-', '*', '/', '[', ']'].contains c

/-- Made of letters, digits and underscores only, and not empty. -/
def IsWord (t : String) : Prop := t ≠ "" ∧ ∀ c ∈ t.toList, isWordChar c = true

theorem IsWord.toList_ne_nil {t : String} (h : IsWord t) : t.toList ≠ [] := by
  simpa using h.1

instance (t : String) : Decidable (IsWord t) :=
  decidable_of_iff (t ≠ "" ∧ t.toList.all isWordChar = true) (by simp [IsWord])

/-- Whatever stands here does not begin with a character of the kind. -/
def EndsRun (kind : Char → Bool) (rest : List Char) : Prop :=
  ∀ c tail, rest = c :: tail → kind c = false

theorem endsRun_cons {kind : Char → Bool} {c : Char} {tail : List Char} (h : kind c = false) :
    EndsRun kind (c :: tail) := by
  intro c' tail' heq
  cases heq
  exact h

theorem endsRun_append {kind : Char → Bool} {run rest : List Char}
    (hrun : ∀ c ∈ run, kind c = false) (hrest : run = [] → EndsRun kind rest) :
    EndsRun kind (run ++ rest) := by
  cases run with
  | nil => exact hrest rfl
  | cons c run => exact endsRun_cons (hrun c (List.mem_cons_self ..))

theorem takeWhile_run {kind : Char → Bool} {run rest : List Char}
    (hrun : ∀ c ∈ run, kind c = true) (hrest : EndsRun kind rest) :
    (run ++ rest).takeWhile kind = run := by
  rw [List.takeWhile_append_of_pos hrun]
  cases rest with
  | nil => simp
  | cons c tail => simp [hrest c tail rfl]

/-- **A run of characters of one kind ends in one place only.** -/
theorem run_append_inj {kind : Char → Bool} {run run' rest rest' : List Char}
    (hrun : ∀ c ∈ run, kind c = true) (hrun' : ∀ c ∈ run', kind c = true)
    (hrest : EndsRun kind rest) (hrest' : EndsRun kind rest')
    (heq : run ++ rest = run' ++ rest') : run = run' ∧ rest = rest' := by
  have hsame : run = run' := by
    rw [← takeWhile_run hrun hrest, heq, takeWhile_run hrun' hrest']
  subst hsame
  exact ⟨rfl, List.append_cancel_left heq⟩

namespace Operator

/-- The characters of the token. -/
def spelling (operator : Operator) : List Char := (operator.token?.getD "").toList

/-- The name in front of the parenthesis, for a function. -/
def callee (operator : Operator) : List Char :=
  match (Operation.canonical operator).phrasing with
  | .call => operator.spelling
  | .infixed | .kernelResult => []

/-- What stands in front of the right operand, if there is one. -/
def separator (operator : Operator) (hasRight : Bool) : List Char :=
  match (Operation.canonical operator).phrasing with
  | .call => if hasRight then [','] else []
  | .infixed | .kernelResult => operator.spelling

/-- The operator has a token, and with the usual tags it is written inline. -/
def IsInline (operator : Operator) : Prop :=
  operator.token?.isSome = true ∧ (Operation.canonical operator).phrasing ≠ .kernelResult

theorem spelling_injective {k l : Operator} (hk : k.IsInline) (hl : l.IsInline)
    (h : k.spelling = l.spelling) : k = l := by
  obtain ⟨text, hktext⟩ := Option.isSome_iff_exists.1 hk.1
  obtain ⟨text', hltext⟩ := Option.isSome_iff_exists.1 hl.1
  unfold spelling at h
  rw [hktext, hltext, Option.getD_some, Option.getD_some, String.toList_inj] at h
  exact token_injective hktext (h ▸ hltext)

theorem callee_wordChar (operator : Operator) : ∀ c ∈ operator.callee, isWordChar c = true := by
  have hall : operator.callee.all isWordChar = true := by cases operator <;> rfl
  exact List.all_eq_true.1 hall

/-- Functions have a name, which no symbol does. -/
theorem callee_eq_nil_iff {operator : Operator} (h : operator.IsInline) :
    operator.callee = [] ↔ (Operation.canonical operator).phrasing = .infixed := by
  revert h
  unfold IsInline
  cases operator <;> decide

theorem spelling_symbolChar {operator : Operator} (h : operator.IsInline)
    (hphrasing : (Operation.canonical operator).phrasing = .infixed) :
    operator.spelling ≠ [] ∧ ∀ c ∈ operator.spelling, isSymbolChar c = true := by
  have hall : operator.spelling ≠ [] ∧ operator.spelling.all isSymbolChar = true := by
    revert h hphrasing
    unfold IsInline
    cases operator <;> decide
  exact ⟨hall.1, List.all_eq_true.1 hall.2⟩

end Operator

end FusedKernel
