import FusedKernel.Kernel.Source
import Mathlib.Data.List.Infix
import Mathlib.Data.List.Pairwise

/-!
# Filling the slots of a template

A template has slots: tokens that begin with a mark which stands nowhere else.  Its slots are filled
by replacing one token after the other, and each replacement scans what the ones before it left.
As no filling has a mark, none of them makes, breaks or moves a token.  So the order does not
matter, and in the end every slot holds its own filling and all other text is as it was.

* `Slot`, `SourceText.fill` — a token with its filling, and the replacements of all of them.
* `Slot.Marked`, `Slot.Opens` — slots that can be told apart, and a text with no other marks.
* `Slot.Piece`, `Slot.IsCut` — a template as a row of characters and slots.

Principal results: `exists_isCut`, `IsCut.unique` — a template can be cut in exactly one way;
`replaceAll_flatMap` — a replacement fills the slots of its token; `fill_flatMap` — so do several,
one after the other; `fill_verdict` — what filling leaves, in whatever order.
-/

set_option autoImplicit false

namespace FusedKernel

/-- A token of a template, and the text that takes its place. -/
structure Slot where
  token : String
  filling : String
  deriving DecidableEq, Repr

/-- Replaces the tokens of all slots, one after the other. -/
def SourceText.fill (source : SourceText) (slots : List Slot) : SourceText :=
  slots.foldl (fun source slot => source.replace slot.token slot.filling) source

namespace Replacement

variable {mark : Char} {pattern text : List Char}

theorem replaceAll_of_ne_nil (hne : pattern ≠ []) (replacement text : List Char) :
    replaceAll pattern replacement text = substitute pattern replacement 0 text := by
  simp [replaceAll, hne]

/-- A scan passes over text without the mark that its pattern begins with. -/
theorem substitute_append_of_notMem (hbegins : pattern.head? = some mark) (h : mark ∉ text)
    (replacement rest : List Char) :
    substitute pattern replacement 0 (text ++ rest) =
      text ++ substitute pattern replacement 0 rest := by
  obtain ⟨name, rfl⟩ := List.head?_eq_some_iff.1 hbegins
  induction text with
  | nil => rfl
  | cons c text ih =>
    rw [List.mem_cons, not_or] at h
    have hno : (mark :: name).isPrefixOf (c :: (text ++ rest)) = false := by
      simp [List.isPrefixOf, h.1]
    rw [List.cons_append, List.cons_append, substitute_cons_of_no_occurrence hno, ih h.2]

end Replacement

namespace Slot

variable {mark : Char} {slots order : List Slot} {slot other : Slot} {text : List Char}

/-! ## Tokens -/

/-- Neither token is the beginning of the other. -/
def Apart (slot other : Slot) : Prop :=
  ¬slot.token.toList <+: other.token.toList ∧ ¬other.token.toList <+: slot.token.toList

instance : Std.Symm Apart := ⟨fun _ _ h => h.symm⟩

instance : DecidableRel Apart := fun _ _ => inferInstanceAs (Decidable (_ ∧ _))

/-- Tokens begin with the mark and have no other, and fillings have none. -/
structure Marked (mark : Char) (slots : List Slot) : Prop where
  begins : ∀ slot ∈ slots, slot.token.toList.head? = some mark
  once : ∀ slot ∈ slots, mark ∉ slot.token.toList.tail
  filling : ∀ slot ∈ slots, mark ∉ slot.filling.toList
  apart : slots.Pairwise Apart

/-- Every mark of a text begins the token of a slot. -/
def Opens (mark : Char) (slots : List Slot) (text : List Char) : Prop :=
  ∀ rest ∈ text.tails, rest.head? = some mark → ∃ slot ∈ slots, slot.token.toList <+: rest

namespace Marked

theorem exists_name (h : Marked mark slots) (hslot : slot ∈ slots) :
    ∃ name, slot.token.toList = mark :: name ∧ mark ∉ name := by
  obtain ⟨name, htoken⟩ := List.head?_eq_some_iff.1 (h.begins slot hslot)
  have honce := h.once slot hslot
  rw [htoken] at honce
  exact ⟨name, htoken, honce⟩

/-- At most one token stands at the beginning of a text. -/
theorem eq_of_isPrefix (h : Marked mark slots) (hslot : slot ∈ slots) (hother : other ∈ slots)
    (hhead : slot.token.toList <+: text) (hhead' : other.token.toList <+: text) :
    slot = other := by
  refine Classical.byContradiction fun hne => ?_
  obtain ⟨hapart, hapart'⟩ := h.apart.forall hslot hother hne
  rcases List.prefix_or_prefix_of_prefix hhead hhead' with hle | hle
  · exact hapart hle
  · exact hapart' hle

end Marked

theorem Opens.of_isSuffix {rest : List Char} (h : Opens mark slots text) (hrest : rest <:+ text) :
    Opens mark slots rest := by
  intro rest' hmem
  exact h rest' ((List.mem_tails _ _).2 (((List.mem_tails _ _).1 hmem).trans hrest))

/-- A token has no second mark, so none reaches beyond the next mark of the text. -/
theorem Opens.of_append (h : Marked mark slots) {before after : List Char}
    (hopens : Opens mark slots (before ++ mark :: after)) : Opens mark slots before := by
  intro rest hmem hhead
  obtain ⟨name, rfl⟩ := List.head?_eq_some_iff.1 hhead
  have hsuffix : mark :: name ++ mark :: after <:+ before ++ mark :: after := by
    obtain ⟨front, rfl⟩ := (List.mem_tails _ _).1 hmem
    exact ⟨front, (List.append_assoc _ _ _).symm⟩
  obtain ⟨slot, hslot, behind, htoken⟩ := hopens _ ((List.mem_tails _ _).2 hsuffix) rfl
  refine ⟨slot, hslot, ?_⟩
  rcases List.append_eq_append_iff.1 htoken with ⟨between, hname, _⟩ | ⟨within, hname, hmark⟩
  · exact ⟨between, hname.symm⟩
  · cases within with
    | nil => exact ⟨[], by simp [hname]⟩
    | cons c within =>
      obtain rfl : mark = c := (List.cons.inj hmark).1
      have honce := h.once slot hslot
      simp [hname] at honce

/-! ## Pieces -/

/-- A piece of a template. -/
inductive Piece where
  | char (c : Char)
  | slot (slot : Slot)
  deriving DecidableEq, Repr

namespace Piece

/-- The text of a piece when the slots in `done` have been filled. -/
def chars (done : List Slot) : Piece → List Char
  | char c => [c]
  | .slot slot => if slot ∈ done then slot.filling.toList else slot.token.toList

/-- A piece of a template with such slots: one of them, or a character that is no mark. -/
def Belongs (mark : Char) (slots : List Slot) : Piece → Prop
  | char c => c ≠ mark
  | .slot slot => slot ∈ slots

theorem chars_of_mem {done : List Slot} (h : slot ∈ done) :
    (Piece.slot slot).chars done = slot.filling.toList :=
  if_pos h

theorem chars_of_notMem {done : List Slot} (h : slot ∉ done) :
    (Piece.slot slot).chars done = slot.token.toList :=
  if_neg h

theorem chars_slot_nil (slot : Slot) : (Piece.slot slot).chars [] = slot.token.toList := rfl

end Piece

variable {piece piece' : Piece} {pieces pieces' : List Piece}

theorem Piece.Belongs.chars_ne_nil (h : Marked mark slots) (hpiece : piece.Belongs mark slots) :
    piece.chars [] ≠ [] := by
  cases piece with
  | char c => exact List.cons_ne_nil _ _
  | slot slot =>
    obtain ⟨name, htoken, _⟩ := h.exists_name hpiece
    rw [Piece.chars_slot_nil, htoken]
    exact List.cons_ne_nil _ _

/-- A text shows which piece it begins with. -/
theorem Piece.Belongs.eq_of_append (h : Marked mark slots) (hpiece : piece.Belongs mark slots)
    (hpiece' : piece'.Belongs mark slots) {rest rest' : List Char}
    (htext : piece.chars [] ++ rest = piece'.chars [] ++ rest') : piece = piece' := by
  cases piece with
  | char c =>
    cases piece' with
    | char c' => exact congrArg _ (List.cons.inj htext).1
    | slot slot' =>
      obtain ⟨name, htoken, _⟩ := h.exists_name hpiece'
      rw [chars_slot_nil, htoken] at htext
      exact absurd (List.cons.inj htext).1 hpiece
  | slot slot =>
    cases piece' with
    | char c' =>
      obtain ⟨name, htoken, _⟩ := h.exists_name hpiece
      rw [chars_slot_nil, htoken] at htext
      exact absurd (List.cons.inj htext).1.symm hpiece'
    | slot slot' =>
      exact congrArg _ (h.eq_of_isPrefix hpiece hpiece' (List.prefix_append _ rest)
        (htext ▸ List.prefix_append _ rest'))

/-- The text is cut into pieces. -/
structure IsCut (mark : Char) (slots : List Slot) (text : List Char) (pieces : List Piece) :
    Prop where
  text_eq : pieces.flatMap (Piece.chars []) = text
  belongs : ∀ piece ∈ pieces, piece.Belongs mark slots

theorem IsCut.unique (h : Marked mark slots) (hcut : IsCut mark slots text pieces)
    (hcut' : IsCut mark slots text pieces') : pieces' = pieces := by
  obtain ⟨rfl, hbelongs⟩ := hcut
  obtain ⟨htext, hbelongs'⟩ := hcut'
  induction pieces generalizing pieces' with
  | nil =>
    cases pieces' with
    | nil => rfl
    | cons piece' pieces' =>
      rw [List.flatMap_cons, List.flatMap_nil, List.append_eq_nil_iff] at htext
      exact absurd htext.1 ((hbelongs' _ List.mem_cons_self).chars_ne_nil h)
  | cons piece pieces ih =>
    rw [List.forall_mem_cons] at hbelongs
    cases pieces' with
    | nil =>
      rw [List.flatMap_cons, List.flatMap_nil, eq_comm, List.append_eq_nil_iff] at htext
      exact absurd htext.1 (hbelongs.1.chars_ne_nil h)
    | cons piece' pieces' =>
      rw [List.forall_mem_cons] at hbelongs'
      rw [List.flatMap_cons, List.flatMap_cons] at htext
      obtain rfl := hbelongs'.1.eq_of_append h hbelongs.1 htext
      rw [ih hbelongs.2 (List.append_cancel_left htext) hbelongs'.2]

/-- Every mark begins a token, which is a piece; behind it, the rest of the text is cut. -/
theorem exists_isCut (h : Marked mark slots) (hopens : Opens mark slots text) :
    ∃ pieces, IsCut mark slots text pieces := by
  induction hlength : text.length using Nat.strong_induction_on generalizing text with
  | _ length ih =>
    cases text with
    | nil => exact ⟨[], rfl, by simp⟩
    | cons c rest =>
      by_cases hc : c = mark
      · obtain ⟨slot, hslot, after, hafter⟩ := hopens (c :: rest) (by simp) (by simp [hc])
        obtain ⟨name, htoken, _⟩ := h.exists_name hslot
        have hshorter : after.length < length := by
          rw [← hlength, ← hafter, htoken, List.length_append, List.length_cons]
          omega
        obtain ⟨pieces, htext, hbelongs⟩ :=
          ih _ hshorter (hopens.of_isSuffix ⟨_, hafter⟩) rfl
        refine ⟨.slot slot :: pieces, ?_, List.forall_mem_cons.2 ⟨hslot, hbelongs⟩⟩
        rw [List.flatMap_cons, htext, Piece.chars_slot_nil, hafter]
      · obtain ⟨pieces, htext, hbelongs⟩ :=
          ih rest.length (by simp [← hlength]) (hopens.of_isSuffix (List.suffix_cons c rest)) rfl
        refine ⟨.char c :: pieces, ?_, List.forall_mem_cons.2 ⟨hc, hbelongs⟩⟩
        rw [List.flatMap_cons, htext]
        rfl

/-- Where a token occurs in the text, the cut has its slot: the text before the token and the text
behind it can be cut, and there is only one cut of the whole. -/
theorem IsCut.exists_slot (h : Marked mark slots) (hopens : Opens mark slots text)
    (hcut : IsCut mark slots text pieces) (hslot : slot ∈ slots) {before rest : List Char}
    (htext : text = before ++ (slot.token.toList ++ rest)) :
    ∃ front back, pieces = front ++ .slot slot :: back ∧
      front.flatMap (Piece.chars []) = before := by
  subst htext
  obtain ⟨name, htoken, _⟩ := h.exists_name hslot
  have hbefore : Opens mark slots before := by
    rw [htoken, List.cons_append] at hopens
    exact hopens.of_append h
  have hrest : Opens mark slots rest := by
    rw [← List.append_assoc] at hopens
    exact hopens.of_isSuffix (List.suffix_append _ _)
  obtain ⟨front, hfront, hfrontBelongs⟩ := exists_isCut h hbefore
  obtain ⟨back, hback, hbackBelongs⟩ := exists_isCut h hrest
  have hwhole : IsCut mark slots (before ++ (slot.token.toList ++ rest))
      (front ++ .slot slot :: back) := by
    refine ⟨?_, List.forall_mem_append.2 ⟨hfrontBelongs, ?_⟩⟩
    · rw [List.flatMap_append, List.flatMap_cons, hfront, hback, Piece.chars_slot_nil]
    · exact List.forall_mem_cons.2 ⟨hslot, hbackBelongs⟩
  exact ⟨front, back, hwhole.unique h hcut, hfront⟩

/-! ## Filling -/

/-- A scan for the token of a slot fills a piece that is this slot and passes over any other piece,
whether it has been filled or not. -/
theorem substitute_piece (h : Marked mark slots) (hslot : slot ∈ slots) (done : List Slot)
    (hpiece : piece.Belongs mark slots) (rest : List Char) :
    Replacement.substitute slot.token.toList slot.filling.toList 0 (piece.chars done ++ rest) =
      piece.chars (slot :: done) ++
        Replacement.substitute slot.token.toList slot.filling.toList 0 rest := by
  have hbegins := h.begins slot hslot
  cases piece with
  | char c =>
    have hno : mark ∉ [c] := fun hmem => hpiece (List.mem_singleton.1 hmem).symm
    exact Replacement.substitute_append_of_notMem hbegins hno _ _
  | slot other =>
    by_cases hdone : other ∈ done
    · rw [Piece.chars_of_mem hdone, Piece.chars_of_mem (List.mem_cons_of_mem _ hdone)]
      exact Replacement.substitute_append_of_notMem hbegins (h.filling other hpiece) _ _
    · rw [Piece.chars_of_notMem hdone]
      by_cases heq : other = slot
      · subst heq
        obtain ⟨name, htoken, _⟩ := h.exists_name hslot
        rw [Piece.chars_of_mem List.mem_cons_self]
        exact Replacement.substitute_append_of_occurrence (htoken ▸ List.cons_ne_nil _ _) _ _
      · -- The mark of the other token begins no occurrence, and its name has no mark.
        have hopen : other ∉ slot :: done := by simp [heq, hdone]
        have hno : slot.token.toList.isPrefixOf (other.token.toList ++ rest) = false := by
          rw [← Bool.not_eq_true, List.isPrefixOf_iff_prefix]
          exact fun hhead => heq (h.eq_of_isPrefix hpiece hslot (List.prefix_append _ _) hhead)
        obtain ⟨name, htoken, hname⟩ := h.exists_name hpiece
        rw [htoken, List.cons_append] at hno
        rw [Piece.chars_of_notMem hopen, htoken, List.cons_append, List.cons_append,
          Replacement.substitute_cons_of_no_occurrence hno,
          Replacement.substitute_append_of_notMem hbegins hname]

/-- **A replacement fills the slots of its token**, and leaves the other pieces alone. -/
theorem replaceAll_flatMap (h : Marked mark slots) (hslot : slot ∈ slots) (done : List Slot)
    (hpieces : ∀ piece ∈ pieces, piece.Belongs mark slots) :
    Replacement.replaceAll slot.token.toList slot.filling.toList
        (pieces.flatMap (Piece.chars done)) = pieces.flatMap (Piece.chars (slot :: done)) := by
  obtain ⟨name, htoken, _⟩ := h.exists_name hslot
  rw [Replacement.replaceAll_of_ne_nil (htoken ▸ List.cons_ne_nil _ _)]
  induction pieces with
  | nil => rfl
  | cons piece pieces ih =>
    rw [List.forall_mem_cons] at hpieces
    rw [List.flatMap_cons, List.flatMap_cons, substitute_piece h hslot done hpieces.1,
      ih hpieces.2]

/-- Replacements one after the other fill the slots of all their tokens. -/
theorem fill_flatMap (h : Marked mark slots) (hpieces : ∀ piece ∈ pieces, piece.Belongs mark slots)
    (horder : ∀ slot ∈ order, slot ∈ slots) (done : List Slot) {source : SourceText}
    (hsource : source.content.toList = pieces.flatMap (Piece.chars done)) :
    (source.fill order).content.toList = pieces.flatMap (Piece.chars (order.reverse ++ done)) := by
  induction order generalizing source done with
  | nil => exact hsource
  | cons slot order ih =>
    rw [List.forall_mem_cons] at horder
    have hfilled : (source.replace slot.token slot.filling).content.toList =
        pieces.flatMap (Piece.chars (slot :: done)) := by
      rw [SourceText.content_replace, hsource, replaceAll_flatMap h horder.1 done hpieces]
    rw [List.reverse_cons, List.append_assoc]
    exact ih horder.2 (slot :: done) hfilled

theorem Piece.Belongs.notMem_chars (h : Marked mark slots) (hpiece : piece.Belongs mark slots) :
    mark ∉ piece.chars slots := by
  cases piece with
  | char c => exact fun hmem => hpiece (List.mem_singleton.1 hmem).symm
  | slot slot =>
    rw [chars_of_mem hpiece]
    exact h.filling slot hpiece

/-- **The order of replacements does not matter.**  A template is cut into characters and slots in
exactly one way, with a slot wherever a token occurs.  Whatever the order in which the tokens are
replaced, that leaves each slot with its own filling, the characters as they were, and no mark. -/
theorem fill_verdict (h : Marked mark slots) {source : SourceText}
    (hopens : Opens mark slots source.content.toList) :
    ∃ pieces, IsCut mark slots source.content.toList pieces ∧
      (∀ pieces', IsCut mark slots source.content.toList pieces' → pieces' = pieces) ∧
      (∀ slot ∈ slots, ∀ before rest,
        source.content.toList = before ++ (slot.token.toList ++ rest) →
          ∃ front back, pieces = front ++ .slot slot :: back ∧
            front.flatMap (Piece.chars []) = before) ∧
      ∀ order, order.Perm slots →
        (source.fill order).content.toList = pieces.flatMap (Piece.chars slots) ∧
          mark ∉ (source.fill order).content.toList := by
  obtain ⟨pieces, hcut⟩ := exists_isCut h hopens
  refine ⟨pieces, hcut, fun pieces' hcut' => hcut.unique h hcut',
    fun slot hslot before rest htext => hcut.exists_slot h hopens hslot htext,
    fun order horder => ?_⟩
  have hdone : Piece.chars (order.reverse ++ []) = Piece.chars slots := by
    funext piece
    cases piece <;> simp [Piece.chars, horder.mem_iff]
  have hfilled := fill_flatMap h hcut.belongs (fun slot => horder.mem_iff.1) [] hcut.text_eq.symm
  rw [hdone] at hfilled
  refine ⟨hfilled, ?_⟩
  rw [hfilled, List.mem_flatMap]
  rintro ⟨piece, hmem, hmark⟩
  exact (hcut.belongs piece hmem).notMem_chars h hmark

/-- Slots of a template; the last one is left empty. -/
def kernelSlots : List Slot := [⟨"€name", "fused"⟩, ⟨"€expr", "(1+2)"⟩, ⟨"€x", ""⟩]

/-- Tokens side by side, and an empty filling between two characters. -/
def kernelTemplate : SourceText := ⟨"€x€name[€x]=€expr;"⟩

theorem marked_kernelSlots : Marked '€' kernelSlots :=
  ⟨by decide, by decide, by decide, by decide⟩

theorem opens_kernelTemplate : Opens '€' kernelSlots kernelTemplate.content.toList := by
  unfold Opens
  decide

theorem kernelTemplate_filled :
    Marked '€' kernelSlots ∧ Opens '€' kernelSlots kernelTemplate.content.toList ∧
      (kernelTemplate.fill kernelSlots).content = "fused[]=(1+2);" ∧
      kernelTemplate.fill kernelSlots.reverse = kernelTemplate.fill kernelSlots := by
  obtain ⟨pieces, _, _, _, hfilled⟩ := fill_verdict marked_kernelSlots opens_kernelTemplate
  refine ⟨marked_kernelSlots, opens_kernelTemplate, by cbv, ?_⟩
  have hsame : (kernelTemplate.fill kernelSlots.reverse).content.toList =
      (kernelTemplate.fill kernelSlots).content.toList := by
    rw [(hfilled _ (List.reverse_perm _)).1, (hfilled _ (List.Perm.refl _)).1]
  exact congrArg SourceText.mk (String.toList_inj.1 hsame)

end Slot

end FusedKernel
