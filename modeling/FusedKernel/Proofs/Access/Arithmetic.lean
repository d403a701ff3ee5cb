import Mathlib.Algebra.BigOperators.Group.List.Basic
import Mathlib.Algebra.Order.Ring.Nat

/-!
# Reading arithmetic texts

The value of an index expression, read the usual way: a sum of products of factors, where a factor
is a word or a whole expression in parentheses.  A text is cut at the plus signs outside its
parentheses, and each part at the multiplication signs outside its own.  What a word stands for is
a parameter; `value?` knows decimal numbers only.

* `cut` — cuts a text at a mark, outside its parentheses.
* `terms?` — the values of the terms of a sum.
* `factorWithin?` — the value of a factor, with a limit on how deep parentheses are nested.
* `Atomic` — a text without signs, which no cut divides.
* `cut_append`, `cut_append_mark` — where a text that has been put together is cut.

Principal results: `sum?_plus`, `product?_times` — the value of a text that has been put together;
`value?_productPlus`, `value?_plusProduct` — the same for three numbers.
-/

set_option autoImplicit false

namespace FusedKernel.Arithmetic

/-! ## Cutting -/

/-- How many parentheses are open after a character. -/
def depthAfter (depth : Nat) : Char → Nat
  | '(' => depth + 1
  | ')' => depth - 1
  | _ => depth

/-- Cuts a text at the marks that stand outside its parentheses. -/
def cut (mark : Char) : Nat → List Char → List (List Char)
  | _, [] => [[]]
  | depth, c :: text =>
    if c = mark ∧ depth = 0 then [] :: cut mark depth text
    else (cut mark (depthAfter depth c) text).modifyHead (c :: ·)

/-- The text closes the parentheses it opens. -/
def Closed (text : List Char) : Prop := text.foldl depthAfter 0 = 0

theorem Closed.append {a b : List Char} (ha : Closed a) (hb : Closed b) : Closed (a ++ b) := by
  rw [Closed, List.foldl_append, ha]
  exact hb

/-- The text opens and closes the same parentheses, wherever it stands. -/
def Balanced (text : List Char) : Prop := ∀ depth, text.foldl depthAfter depth = depth

theorem Balanced.closed {text : List Char} (h : Balanced text) : Closed text := h 0

theorem cut_ne_nil (mark : Char) (depth : Nat) (text : List Char) : cut mark depth text ≠ [] := by
  cases text with
  | nil => simp [cut]
  | cons c text =>
    rw [cut]
    split
    · simp
    · simpa using cut_ne_nil mark _ text

theorem cut_eq_singleton {mark : Char} {text : List Char} (h : mark ∉ text) (depth : Nat) :
    cut mark depth text = [text] := by
  induction text generalizing depth with
  | nil => rfl
  | cons c text ih =>
    rw [List.mem_cons, not_or] at h
    rw [cut, if_neg fun hc => h.1 hc.1.symm, ih h.2]
    rfl

/-- Behind a text that leaves no parenthesis open, the cutting starts anew: the first part of the
rest joins the last one of the text. -/
theorem cut_append {mark : Char} (hmark : depthAfter 0 mark = 0) {depth : Nat}
    {text : List Char} (h : text.foldl depthAfter depth = 0) (rest : List Char) :
    cut mark depth (text ++ rest) = (cut mark depth text).dropLast ++
      (cut mark 0 rest).modifyHead ((cut mark depth text).getLastD [] ++ ·) := by
  -- By induction on the text in front, from any depth that it brings down to zero.
  induction text generalizing depth with
  | nil =>
    obtain rfl : depth = 0 := h
    cases hcut : cut mark 0 rest <;> simp [cut, hcut]
  | cons c text ih =>
    rw [List.cons_append, cut, cut]
    split
    · rename_i hc
      obtain ⟨rfl, rfl⟩ := hc
      rw [List.foldl_cons, hmark] at h
      rw [ih h, List.dropLast_cons_of_ne_nil (cut_ne_nil _ _ _), List.getLastD_cons,
        List.cons_append]
    · rw [ih h]
      rcases hcut : cut mark (depthAfter depth c) text with _ | ⟨part, _ | ⟨next, parts⟩⟩
      · exact absurd hcut (cut_ne_nil _ _ _)
      · cases hrest : cut mark 0 rest <;> simp
      · simp

/-- Behind a text that leaves no parenthesis open, a mark is cut at. -/
theorem cut_append_mark {mark : Char} (hmark : depthAfter 0 mark = 0) {depth : Nat}
    {text : List Char} (h : text.foldl depthAfter depth = 0) (rest : List Char) :
    cut mark depth (text ++ mark :: rest) = cut mark depth text ++ cut mark 0 rest := by
  have hne := cut_ne_nil mark depth text
  have hlast : (cut mark depth text).getLastD [] = (cut mark depth text).getLast hne := by
    rw [List.getLastD_eq_getLast?, List.getLast?_eq_some_getLast hne, Option.getD_some]
  have hrest : cut mark 0 (mark :: rest) = [] :: cut mark 0 rest := by
    rw [cut, if_pos ⟨rfl, rfl⟩]
  rw [cut_append hmark h, hrest, List.modifyHead_cons, hlast, List.append_nil,
    List.append_cons, List.dropLast_append_getLast]

/-! ## Reading -/

/-- The value of a product of factors. -/
def product? (factor? : List Char → Option Nat) (text : List Char) : Option Nat :=
  ((cut '*' 0 text).mapM factor?).map List.prod

/-- The value of a sum of products of factors. -/
def sum? (factor? : List Char → Option Nat) (text : List Char) : Option Nat :=
  ((cut '+' 0 text).mapM (product? factor?)).map List.sum

/-- The values of the terms of a sum of products. -/
def terms? (factor? : List Char → Option Nat) (text : List Char) : Option (List Nat) :=
  (cut '+' 0 text).mapM (product? factor?)

/-- What stands between an opening parenthesis at the start and a closing one at the end. -/
def inner? : List Char → Option (List Char)
  | '(' :: text => if text.getLast? = some ')' then some text.dropLast else none
  | _ => none

/-- The value of a factor whose parentheses are nested at most `nesting` deep. -/
def factorWithin? (word? : List Char → Option Nat) : Nat → List Char → Option Nat
  | 0, text => word? text
  | nesting + 1, text =>
    match inner? text with
    | some inner => sum? (factorWithin? word? nesting) inner
    | none => word? text

/-- The value of a decimal number. -/
def numeral? (text : List Char) : Option Nat :=
  if text ≠ [] ∧ text.all Char.isDigit = true then some (Nat.ofDigitChars 10 text 0) else none

/-- The value of an expression of decimal numbers. -/
def value? (text : String) : Option Nat :=
  sum? (factorWithin? numeral? text.toList.length) text.toList

section Composition

variable {factor? : List Char → Option Nat} {a b : List Char} {m n : Nat}

theorem product?_times (hclosed : Closed a) (ha : product? factor? a = some m)
    (hb : product? factor? b = some n) : product? factor? (a ++ '*' :: b) = some (m * n) := by
  unfold product? at *
  obtain ⟨ms, hms, rfl⟩ := Option.map_eq_some_iff.1 ha
  obtain ⟨ns, hns, rfl⟩ := Option.map_eq_some_iff.1 hb
  rw [cut_append_mark rfl hclosed, List.mapM_append, hms, hns]
  simp

theorem terms?_plus {ms ns : List Nat} (hclosed : Closed a) (ha : terms? factor? a = some ms)
    (hb : terms? factor? b = some ns) : terms? factor? (a ++ '+' :: b) = some (ms ++ ns) := by
  unfold terms? at *
  rw [cut_append_mark rfl hclosed, List.mapM_append, ha, hb]
  rfl

theorem sum?_eq_some_iff :
    sum? factor? a = some m ↔ ∃ ms, terms? factor? a = some ms ∧ ms.sum = m :=
  Option.map_eq_some_iff

theorem sum?_plus (hclosed : Closed a) (ha : sum? factor? a = some m)
    (hb : sum? factor? b = some n) : sum? factor? (a ++ '+' :: b) = some (m + n) := by
  obtain ⟨ms, hms, rfl⟩ := sum?_eq_some_iff.1 ha
  obtain ⟨ns, hns, rfl⟩ := sum?_eq_some_iff.1 hb
  exact sum?_eq_some_iff.2 ⟨ms ++ ns, terms?_plus hclosed hms hns, List.sum_append⟩

theorem sum?_eq_product? (h : '+' ∉ a) : sum? factor? a = product? factor? a := by
  rw [sum?, cut_eq_singleton h]
  cases hproduct : product? factor? a <;> simp [hproduct]

end Composition

/-! ## Numbers -/

/-- A text without signs and parentheses. -/
def Atomic (text : List Char) : Prop := ∀ sign ∈ ['+', '*', '(', ')'], sign ∉ text

namespace Atomic

variable {text : List Char} (h : Atomic text)

include h

theorem balanced : Balanced text := by
  have hdepth : ∀ c ∈ text, ∀ depth, depthAfter depth c = depth := by
    intro c hc depth
    unfold depthAfter
    split
    · exact absurd hc (h '(' (by decide))
    · exact absurd hc (h ')' (by decide))
    · rfl
  clear h
  intro depth
  induction text with
  | nil => rfl
  | cons c text ih =>
    rw [List.foldl_cons, hdepth c List.mem_cons_self]
    exact ih fun d hd => hdepth d (List.mem_cons_of_mem c hd)

theorem closed : Closed text := h.balanced.closed

theorem product?_eq (factor? : List Char → Option Nat) : product? factor? text = factor? text := by
  rw [product?, cut_eq_singleton (h '*' (by decide))]
  cases hfactor : factor? text <;> simp [hfactor]

theorem factorWithin?_eq (word? : List Char → Option Nat) (nesting : Nat) :
    factorWithin? word? nesting text = word? text := by
  cases nesting with
  | zero => rfl
  | succ nesting =>
    have hinner : inner? text = none := by
      unfold inner?
      split
      · exact absurd List.mem_cons_self (h '(' (by decide))
      · rfl
    rw [factorWithin?, hinner]

end Atomic

theorem atomic_toDigits (n : Nat) : Atomic (Nat.toDigits 10 n) := by
  intro sign hsign hmem
  have hdigit := Nat.isDigit_of_mem_toDigits (by decide) (by decide) hmem
  have hnone : ['+', '*', '(', ')'].all (!·.isDigit) = true := by decide
  simpa [hdigit] using List.all_eq_true.1 hnone sign hsign

theorem numeral?_toDigits (n : Nat) : numeral? (Nat.toDigits 10 n) = some n := by
  rw [numeral?, if_pos, Nat.ofDigitChars_ten_toDigits]
  refine ⟨Nat.toDigits_ne_nil, List.all_eq_true.2 fun c hc => ?_⟩
  exact Nat.isDigit_of_mem_toDigits (by decide) (by decide) hc

section

variable (nesting a b : Nat)

theorem product?_toDigits :
    product? (factorWithin? numeral? nesting) (Nat.toDigits 10 a) = some a := by
  rw [(atomic_toDigits a).product?_eq, (atomic_toDigits a).factorWithin?_eq, numeral?_toDigits]

theorem sum?_toDigits : sum? (factorWithin? numeral? nesting) (Nat.toDigits 10 a) = some a := by
  rw [sum?_eq_product? (atomic_toDigits a '+' (by decide)), product?_toDigits]

theorem sum?_toDigits_times :
    sum? (factorWithin? numeral? nesting) (Nat.toDigits 10 a ++ '*' :: Nat.toDigits 10 b) =
      some (a * b) := by
  have hfree : '+' ∉ Nat.toDigits 10 a ++ '*' :: Nat.toDigits 10 b := by
    simp [atomic_toDigits a '+' (by decide), atomic_toDigits b '+' (by decide)]
  rw [sum?_eq_product? hfree]
  exact product?_times (atomic_toDigits a).closed (product?_toDigits nesting a)
    (product?_toDigits nesting b)

end

theorem value?_productPlus (a b c : Nat) :
    value? (toString a ++ "*" ++ toString b ++ "+" ++ toString c) = some (a * b + c) := by
  have htext : (toString a ++ "*" ++ toString b ++ "+" ++ toString c).toList =
      (Nat.toDigits 10 a ++ '*' :: Nat.toDigits 10 b) ++ '+' :: Nat.toDigits 10 c := by
    simp
  have hclosed : Closed (Nat.toDigits 10 a ++ '*' :: Nat.toDigits 10 b) :=
    (atomic_toDigits a).closed.append (atomic_toDigits b).closed
  rw [value?, htext]
  exact sum?_plus hclosed (sum?_toDigits_times _ a b) (sum?_toDigits _ c)

theorem value?_plusProduct (a b c : Nat) :
    value? (toString a ++ "+" ++ toString b ++ "*" ++ toString c) = some (a + b * c) := by
  have htext : (toString a ++ "+" ++ toString b ++ "*" ++ toString c).toList =
      Nat.toDigits 10 a ++ '+' :: (Nat.toDigits 10 b ++ '*' :: Nat.toDigits 10 c) := by
    simp
  rw [value?, htext]
  exact sum?_plus (atomic_toDigits a).closed (sum?_toDigits _ a) (sum?_toDigits_times _ b c)

example : value? "1+2*3" = some 7 := by decide

end FusedKernel.Arithmetic
