import FusedKernel.Proofs.Access.Arithmetic
import FusedKernel.Proofs.Expression.Characters

/-!
# Terms of an expression

An expression of numbers and names is a sum of terms, and what it is worth inside a larger text
depends on them one by one: a plus sign puts the terms of two texts in a row, a multiplication sign
takes one term of each, and parentheses make one term of all.

* `IsExpression` — numbers and names, put together by plus signs, multiplication signs and
  parentheses in any way.
* `termsIn?`, `valueIn?` — the values of the terms of an expression, and of the expression, when
  the names have values.
* `intercalate_cut` — what the parts of a text are, the text is.
* `factorWithin?_mono` — what is read is read alike with a higher limit on nested parentheses.
* `termsIn?_plus`, `termsIn?_times`, `termsIn?_group` — the terms of a text that has been put
  together.

Principal result: `isExpression_iff` — the texts that have a value are the expressions, whatever
the names stand for.
-/

set_option autoImplicit false

namespace FusedKernel.Arithmetic

/-! ## Reading parts one by one -/

theorem mapM_eq_some_iff {α β : Type} {f : α → Option β} {xs : List α} {ys : List β} :
    xs.mapM f = some ys ↔ xs.map f = ys.map some := by
  induction xs generalizing ys with
  | nil => cases ys <;> simp
  | cons x xs ih => cases ys <;> simp [List.mapM_cons, Option.bind_eq_some_iff, ih]

theorem exists_of_mapM {α β : Type} {f : α → Option β} {xs : List α} {ys : List β}
    (h : xs.mapM f = some ys) {x : α} (hx : x ∈ xs) : ∃ y, f x = some y := by
  have hfx := List.mem_map_of_mem (f := f) hx
  rw [mapM_eq_some_iff.1 h] at hfx
  obtain ⟨y, _, hy⟩ := List.mem_map.1 hfx
  exact ⟨y, hy.symm⟩

theorem mapM_mono {α β : Type} {f g : α → Option β} (hfg : ∀ x y, f x = some y → g x = some y)
    {xs : List α} {ys : List β} (h : xs.mapM f = some ys) : xs.mapM g = some ys := by
  rw [mapM_eq_some_iff, ← mapM_eq_some_iff.1 h]
  refine List.map_congr_left fun x hx => ?_
  obtain ⟨y, hy⟩ := exists_of_mapM h hx
  rw [hy, hfg x y hy]

/-! ## Expressions -/

/-- A word that does not begin with a digit. -/
def isName (text : List Char) : Bool := text.all isWordChar && text.head?.any (!·.isDigit)

/-- An expression of numbers and names. -/
inductive IsExpression : List Char → Prop
  | number {text : List Char} (hne : text ≠ []) (h : text.all Char.isDigit = true) :
      IsExpression text
  | name {text : List Char} (h : isName text = true) : IsExpression text
  | group {a : List Char} (ha : IsExpression a) : IsExpression ('(' :: a ++ [')'])
  | plus {a b : List Char} (ha : IsExpression a) (hb : IsExpression b) :
      IsExpression (a ++ '+' :: b)
  | times {a b : List Char} (ha : IsExpression a) (hb : IsExpression b) :
      IsExpression (a ++ '*' :: b)

theorem Balanced.append {a b : List Char} (ha : Balanced a) (hb : Balanced b) :
    Balanced (a ++ b) := by
  intro depth
  rw [List.foldl_append, ha, hb]

theorem Balanced.parenthesised {text : List Char} (h : Balanced text) :
    Balanced ('(' :: text ++ [')']) := by
  intro depth
  rw [List.cons_append, List.foldl_cons, List.foldl_append, h]
  rfl

theorem atomic_of_isWordChar {text : List Char} (h : ∀ c ∈ text, isWordChar c = true) :
    Atomic text := by
  intro sign hsign hmem
  have hnone : ['+', '*', '(', ')'].all (!isWordChar ·) = true := by decide
  simpa [h sign hmem] using List.all_eq_true.1 hnone sign hsign

theorem isWordChar_of_isDigit {c : Char} (h : c.isDigit = true) : isWordChar c = true := by
  simp [isWordChar, Char.isAlphanum, h]

theorem atomic_of_digits {text : List Char} (h : text.all Char.isDigit = true) : Atomic text :=
  atomic_of_isWordChar fun c hc => isWordChar_of_isDigit (List.all_eq_true.1 h c hc)

theorem atomic_of_isName {text : List Char} (h : isName text = true) : Atomic text :=
  atomic_of_isWordChar (List.all_eq_true.1 (Bool.and_eq_true_iff.1 h).1)

theorem IsExpression.balanced {text : List Char} (h : IsExpression text) : Balanced text := by
  induction h with
  | number _ h => exact (atomic_of_digits h).balanced
  | name h => exact (atomic_of_isName h).balanced
  | group _ ih => exact ih.parenthesised
  | plus _ _ iha ihb => exact iha.append fun depth => ihb depth
  | times _ _ iha ihb => exact iha.append fun depth => ihb depth

/-! ## What is read is an expression -/

theorem intercalate_modifyHead (mark c : Char) {parts : List (List Char)} (h : parts ≠ []) :
    [mark].intercalate (parts.modifyHead (c :: ·)) = c :: [mark].intercalate parts := by
  rcases parts with _ | ⟨part, _ | ⟨next, parts⟩⟩
  · exact absurd rfl h
  · simp
  · simp [List.intercalate_cons_cons]

/-- With the marks put back between them, the parts are the text. -/
theorem intercalate_cut (mark : Char) (depth : Nat) (text : List Char) :
    [mark].intercalate (cut mark depth text) = text := by
  induction text generalizing depth with
  | nil => simp [cut]
  | cons c text ih =>
    rw [cut]
    split
    · rename_i hc
      obtain ⟨part, parts, hcut⟩ := List.exists_cons_of_ne_nil (cut_ne_nil mark depth text)
      rw [hcut, List.intercalate_cons_cons, ← hcut, ih, hc.1]
      rfl
    · rw [intercalate_modifyHead mark c (cut_ne_nil _ _ _), ih]

theorem of_mapM_cut {β : Type} {mark : Char} {P : List Char → Prop}
    (hjoin : ∀ a b, P a → P b → P (a ++ mark :: b)) {f : List Char → Option β}
    (hf : ∀ part y, f part = some y → P part) {text : List Char} {ys : List β}
    (h : (cut mark 0 text).mapM f = some ys) : P text := by
  have hparts : ∀ part ∈ cut mark 0 text, P part := by
    intro part hpart
    obtain ⟨y, hy⟩ := exists_of_mapM h hpart
    exact hf part y hy
  rw [← intercalate_cut mark 0 text]
  obtain ⟨part, parts, hcut⟩ := List.exists_cons_of_ne_nil (cut_ne_nil mark 0 text)
  rw [hcut] at hparts ⊢
  clear h hcut
  induction parts generalizing part with
  | nil => simpa using hparts part List.mem_cons_self
  | cons next parts ih =>
    rw [List.intercalate_cons_cons, List.append_assoc]
    exact hjoin _ _ (hparts part List.mem_cons_self)
      (ih next fun p hp => hparts p (List.mem_cons_of_mem part hp))

section Factors

variable {factor? factor'? : List Char → Option Nat} {text : List Char} {v : Nat} {vs : List Nat}

section

variable (hfactor : ∀ text v, factor? text = some v → IsExpression text)

include hfactor

theorem isExpression_of_product? (h : product? factor? text = some v) : IsExpression text := by
  obtain ⟨_, hfactors, _⟩ := Option.map_eq_some_iff.1 h
  exact of_mapM_cut (P := IsExpression) (fun _ _ => .times) hfactor hfactors

theorem isExpression_of_terms? (h : terms? factor? text = some vs) : IsExpression text :=
  of_mapM_cut (P := IsExpression) (fun _ _ => .plus) (fun _ _ => isExpression_of_product? hfactor) h

end

section

variable (hfactor : ∀ text v, factor? text = some v → factor'? text = some v)

include hfactor

theorem product?_mono (h : product? factor? text = some v) : product? factor'? text = some v := by
  obtain ⟨factors, hfactors, hv⟩ := Option.map_eq_some_iff.1 h
  exact Option.map_eq_some_iff.2 ⟨factors, mapM_mono hfactor hfactors, hv⟩

theorem terms?_mono (h : terms? factor? text = some vs) : terms? factor'? text = some vs :=
  mapM_mono (fun _ _ => product?_mono hfactor) h

end

end Factors

theorem inner?_eq_some_iff {text inner : List Char} :
    inner? text = some inner ↔ text = '(' :: inner ++ [')'] := by
  constructor
  · intro h
    unfold inner? at h
    split at h
    · split at h
      · rename_i rest hlast
        obtain rfl := Option.some.inj h
        rw [List.cons_append, List.dropLast_append_getLast? ')' hlast]
      · cases h
    · cases h
  · rintro rfl
    simp [inner?]

/-- The value of a number, or of a name. -/
def word? (valueOf : String → Nat) (text : List Char) : Option Nat :=
  match numeral? text with
  | some n => some n
  | none => if isName text = true then some (valueOf (String.ofList text)) else none

section Words

variable {valueOf : String → Nat} {text : List Char} {v : Nat}

theorem word?_eq_some (h : word? valueOf text = some v) :
    (text ≠ [] ∧ text.all Char.isDigit = true) ∨ isName text = true := by
  unfold word? at h
  split at h
  · rename_i hnumeral
    unfold numeral? at hnumeral
    split at hnumeral
    · exact Or.inl ‹_›
    · cases hnumeral
  · split at h
    · exact Or.inr ‹_›
    · cases h

theorem exists_word? (h : (text ≠ [] ∧ text.all Char.isDigit = true) ∨ isName text = true) :
    ∃ v, word? valueOf text = some v := by
  unfold word?
  split
  · exact ⟨_, rfl⟩
  · rename_i hnumeral
    rcases h with hdigits | hname
    · rw [numeral?, if_pos hdigits] at hnumeral
      cases hnumeral
    · exact ⟨_, if_pos hname⟩

theorem atomic_of_word? (h : word? valueOf text = some v) : Atomic text := by
  rcases word?_eq_some h with ⟨_, hdigits⟩ | hname
  · exact atomic_of_digits hdigits
  · exact atomic_of_isName hname

theorem isExpression_of_word? (h : word? valueOf text = some v) : IsExpression text := by
  rcases word?_eq_some h with ⟨hne, hdigits⟩ | hname
  · exact .number hne hdigits
  · exact .name hname

end Words

theorem isExpression_of_factorWithin? {valueOf : String → Nat} (nesting : Nat) :
    ∀ text v, factorWithin? (word? valueOf) nesting text = some v → IsExpression text := by
  induction nesting with
  | zero => exact fun _ _ => isExpression_of_word?
  | succ nesting ih =>
    intro text v h
    rw [factorWithin?] at h
    split at h
    · rename_i inner hinner
      obtain ⟨vs, hvs, _⟩ := sum?_eq_some_iff.1 h
      rw [inner?_eq_some_iff.1 hinner]
      exact .group (isExpression_of_terms? ih hvs)
    · exact isExpression_of_word? h

/-- What is read with some limit on the nesting of parentheses is read alike with a higher one. -/
theorem factorWithin?_mono {valueOf : String → Nat} {nesting nesting' : Nat}
    (hle : nesting ≤ nesting') :
    ∀ text v, factorWithin? (word? valueOf) nesting text = some v →
      factorWithin? (word? valueOf) nesting' text = some v := by
  induction nesting generalizing nesting' with
  | zero =>
    intro text v h
    rw [(atomic_of_word? h).factorWithin?_eq]
    exact h
  | succ nesting ih =>
    intro text v h
    obtain ⟨limit, rfl⟩ := Nat.exists_eq_add_of_lt hle
    rw [factorWithin?] at h ⊢
    split at h
    · obtain ⟨vs, hvs, hv⟩ := sum?_eq_some_iff.1 h
      exact sum?_eq_some_iff.2 ⟨vs, terms?_mono (ih (Nat.le_add_right _ _)) hvs, hv⟩
    · exact h

/-! ## Sums in parentheses -/

theorem depthAfter_succ {depth : Nat} {c : Char} (h : c = ')' → depth ≠ 0) :
    depthAfter (depth + 1) c = depthAfter depth c + 1 := by
  unfold depthAfter
  split
  · rfl
  · have hdepth := h rfl
    omega
  · rfl

/-- A text that never comes down to the depth below it is not cut. -/
theorem cut_inside {mark : Char} {depth : Nat} {text : List Char}
    (h : text.foldl depthAfter (depth + 1) = text.foldl depthAfter depth + 1) (rest : List Char) :
    cut mark (depth + 1) (text ++ rest) =
      (cut mark (text.foldl depthAfter (depth + 1)) rest).modifyHead (text ++ ·) := by
  induction text generalizing depth with
  | nil => cases hcut : cut mark (depth + 1) rest <;> simp [hcut]
  | cons c text ih =>
    -- A parenthesis closed at depth zero would bring both runs to the same depth for good.
    have hstep : depthAfter (depth + 1) c = depthAfter depth c + 1 := by
      refine depthAfter_succ ?_
      rintro rfl rfl
      simp [depthAfter] at h
    rw [List.foldl_cons, List.foldl_cons, hstep] at h
    rw [List.cons_append, cut, if_neg (by simp), hstep, ih h, List.foldl_cons, hstep,
      List.modifyHead_modifyHead]
    rfl

theorem cut_parenthesised {mark : Char} (hopen : '(' ≠ mark) {text : List Char}
    (h : Balanced text) : cut mark 0 ('(' :: text ++ [')']) = ['(' :: text ++ [')']] := by
  have hinside : cut mark 1 (text ++ [')']) = [text ++ [')']] := by
    rw [cut_inside (by rw [h, h]), h, cut, if_neg (by simp)]
    rfl
  rw [List.cons_append, cut, if_neg fun hc => hopen hc.1]
  change (cut mark 1 (text ++ [')'])).modifyHead _ = _
  rw [hinside]
  rfl

/-! ## Putting expressions together -/

/-- The values of the terms of an expression. -/
def termsIn? (valueOf : String → Nat) (text : List Char) : Option (List Nat) :=
  terms? (factorWithin? (word? valueOf) text.length) text

/-- The value of an expression. -/
def valueIn? (valueOf : String → Nat) (text : List Char) : Option Nat :=
  sum? (factorWithin? (word? valueOf) text.length) text

section Texts

variable {valueOf : String → Nat} {a b : List Char} {ms ns before behind : List Nat} {m n : Nat}

theorem valueIn?_eq_some_iff :
    valueIn? valueOf a = some m ↔ ∃ ms, termsIn? valueOf a = some ms ∧ ms.sum = m :=
  sum?_eq_some_iff

theorem ne_nil_of_termsIn? (h : termsIn? valueOf a = some ms) : ms ≠ [] := by
  rintro rfl
  rw [termsIn?, terms?, mapM_eq_some_iff] at h
  exact cut_ne_nil _ _ _ (List.map_eq_nil_iff.1 h)

theorem isExpression_of_termsIn? (h : termsIn? valueOf a = some ms) : IsExpression a :=
  isExpression_of_terms? (isExpression_of_factorWithin? _) h

theorem terms?_of_termsIn? {nesting : Nat} (hle : a.length ≤ nesting)
    (h : termsIn? valueOf a = some ms) :
    terms? (factorWithin? (word? valueOf) nesting) a = some ms :=
  terms?_mono (factorWithin?_mono hle) h

theorem termsIn?_word (h : word? valueOf a = some m) : termsIn? valueOf a = some [m] := by
  have hatomic := atomic_of_word? h
  rw [termsIn?, terms?, cut_eq_singleton (hatomic '+' (by decide)), List.mapM_cons,
    hatomic.product?_eq, hatomic.factorWithin?_eq, h]
  rfl

/-- An expression in parentheses is one term. -/
theorem termsIn?_group (ha : valueIn? valueOf a = some m) :
    termsIn? valueOf ('(' :: a ++ [')']) = some [m] := by
  obtain ⟨ms, hms, rfl⟩ := valueIn?_eq_some_iff.1 ha
  have hbalanced := (isExpression_of_termsIn? hms).balanced
  have hlength : ('(' :: a ++ [')']).length = (a.length + 1) + 1 := by simp
  rw [termsIn?, hlength]
  have hfactor : factorWithin? (word? valueOf) (a.length + 1 + 1) ('(' :: a ++ [')']) =
      some ms.sum := by
    rw [factorWithin?, inner?_eq_some_iff.2 rfl]
    exact sum?_eq_some_iff.2 ⟨ms, terms?_of_termsIn? (Nat.le_succ _) hms, rfl⟩
  have hproduct : product? (factorWithin? (word? valueOf) (a.length + 1 + 1))
      ('(' :: a ++ [')']) = some ms.sum := by
    rw [product?, cut_parenthesised (by decide) hbalanced, List.mapM_cons, hfactor]
    simp
  rw [terms?, cut_parenthesised (by decide) hbalanced, List.mapM_cons, hproduct]
  rfl

theorem termsIn?_plus (ha : termsIn? valueOf a = some ms) (hb : termsIn? valueOf b = some ns) :
    termsIn? valueOf (a ++ '+' :: b) = some (ms ++ ns) :=
  terms?_plus (isExpression_of_termsIn? ha).balanced.closed (terms?_of_termsIn? (by simp) ha)
    (terms?_of_termsIn? (by simp; omega) hb)

/-- Between two sums, a multiplication sign takes one term of each. -/
theorem termsIn?_times (ha : termsIn? valueOf a = some (before ++ [m]))
    (hb : termsIn? valueOf b = some (n :: behind)) :
    termsIn? valueOf (a ++ '*' :: b) = some (before ++ m * n :: behind) := by
  have hclosed := (isExpression_of_termsIn? ha).balanced.closed
  have hfront : terms? (factorWithin? (word? valueOf) (a ++ '*' :: b).length) a = _ :=
    terms?_of_termsIn? (by simp) ha
  have hback : terms? (factorWithin? (word? valueOf) (a ++ '*' :: b).length) b = _ :=
    terms?_of_termsIn? (by simp; omega) hb
  rw [terms?, mapM_eq_some_iff, List.map_append] at hfront
  rw [terms?, mapM_eq_some_iff, List.map_cons] at hback
  obtain ⟨parts, lasts, hparts, hbefore, hlasts⟩ := List.map_eq_append_iff.1 hfront
  obtain ⟨last, rfl, hlast⟩ := List.map_eq_singleton_iff.1 hlasts
  obtain ⟨first, rest, hrest, hfirst, hbehind⟩ := List.map_eq_cons_iff.1 hback
  have hcut : cut '+' 0 (a ++ '*' :: b) = parts ++ (last ++ '*' :: first) :: rest := by
    have hsign : cut '+' 0 ('*' :: b) = ('*' :: first) :: rest := by
      rw [cut, if_neg (by decide)]
      change (cut '+' 0 b).modifyHead _ = _
      rw [hrest, List.modifyHead_cons]
    rw [cut_append rfl hclosed, hparts, hsign, List.dropLast_concat, List.getLastD_concat,
      List.modifyHead_cons]
  have hlastClosed := isExpression_of_product? (isExpression_of_factorWithin? _) hlast
  have hproduct := product?_times hlastClosed.balanced.closed hlast hfirst
  rw [termsIn?, terms?, hcut, mapM_eq_some_iff, List.map_append, List.map_cons, hbefore, hproduct,
    hbehind, List.map_append, List.map_cons]

theorem IsExpression.exists_termsIn? (h : IsExpression a) (valueOf : String → Nat) :
    ∃ ms, termsIn? valueOf a = some ms := by
  induction h with
  | number hne hdigits =>
    obtain ⟨v, hv⟩ := exists_word? (Or.inl ⟨hne, hdigits⟩)
    exact ⟨_, termsIn?_word hv⟩
  | name hname =>
    obtain ⟨v, hv⟩ := exists_word? (Or.inr hname)
    exact ⟨_, termsIn?_word hv⟩
  | group _ ih =>
    obtain ⟨ms, hms⟩ := ih
    exact ⟨_, termsIn?_group (valueIn?_eq_some_iff.2 ⟨ms, hms, rfl⟩)⟩
  | plus _ _ iha ihb =>
    obtain ⟨ms, hms⟩ := iha
    obtain ⟨ns, hns⟩ := ihb
    exact ⟨_, termsIn?_plus hms hns⟩
  | times _ _ iha ihb =>
    obtain ⟨ms, hms⟩ := iha
    obtain ⟨ns, hns⟩ := ihb
    obtain ⟨before, m, rfl⟩ := ms.eq_nil_or_concat'.resolve_left (ne_nil_of_termsIn? hms)
    obtain ⟨n, behind, rfl⟩ := List.exists_cons_of_ne_nil (ne_nil_of_termsIn? hns)
    exact ⟨_, termsIn?_times hms hns⟩

/-- **The texts that have a value are the expressions**, whatever the names stand for. -/
theorem isExpression_iff (valueOf : String → Nat) (a : List Char) :
    IsExpression a ↔ ∃ v, valueIn? valueOf a = some v := by
  constructor
  · intro h
    obtain ⟨ms, hms⟩ := h.exists_termsIn? valueOf
    exact ⟨ms.sum, valueIn?_eq_some_iff.2 ⟨ms, hms, rfl⟩⟩
  · rintro ⟨v, hv⟩
    obtain ⟨ms, hms, _⟩ := valueIn?_eq_some_iff.1 hv
    exact isExpression_of_termsIn? hms

instance (text : List Char) : Decidable (IsExpression text) :=
  decidable_of_iff ((valueIn? (fun _ => 0) text).isSome = true)
    (Option.isSome_iff_exists.trans (isExpression_iff _ text).symm)

end Texts

end FusedKernel.Arithmetic
