/-!
# Replacement of a pattern in a text

`replaceAll` replaces the occurrences of a pattern that a scan from the left finds without
overlap.  An empty pattern occurs before every character and at the end.

The scan carries the number of characters of the last occurrence that it still has to drop,
so it recurses on the text itself.

Principal results: `substitute_append_of_occurrence`, `substitute_cons_of_no_occurrence` (the
two cases of a scan), `replaceAll_self`.
-/

set_option autoImplicit false

namespace FusedKernel

namespace Replacement

/-- Puts a text before every character and at the end. -/
def interleave (replacement : List Char) : List Char → List Char
  | [] => replacement
  | c :: cs => replacement ++ c :: interleave replacement cs

/-- Drops `skip` characters, then replaces the occurrences of a nonempty pattern. -/
def substitute (pattern replacement : List Char) : Nat → List Char → List Char
  | _, [] => []
  | skip + 1, _ :: cs => substitute pattern replacement skip cs
  | 0, c :: cs =>
    if pattern.isPrefixOf (c :: cs) then
      replacement ++ substitute pattern replacement (pattern.length - 1) cs
    else c :: substitute pattern replacement 0 cs

theorem substitute_skip (pattern replacement dropped rest : List Char) :
    substitute pattern replacement dropped.length (dropped ++ rest) =
      substitute pattern replacement 0 rest := by
  induction dropped with
  | nil => rfl
  | cons c dropped ih => exact ih

/-- An occurrence at the head is replaced, and the scan goes on behind it. -/
theorem substitute_append_of_occurrence {pattern : List Char} (hne : pattern ≠ [])
    (replacement rest : List Char) :
    substitute pattern replacement 0 (pattern ++ rest) =
      replacement ++ substitute pattern replacement 0 rest := by
  cases pattern with
  | nil => exact absurd rfl hne
  | cons c pattern =>
    have hocc : (c :: pattern).isPrefixOf (c :: (pattern ++ rest)) = true := by simp
    rw [List.cons_append, substitute, if_pos hocc]
    exact congrArg _ (substitute_skip _ _ _ _)

/-- Without an occurrence at the head, the first character is kept. -/
theorem substitute_cons_of_no_occurrence {pattern : List Char} {c : Char} {cs : List Char}
    (h : pattern.isPrefixOf (c :: cs) = false) (replacement : List Char) :
    substitute pattern replacement 0 (c :: cs) =
      c :: substitute pattern replacement 0 cs := by
  rw [substitute, h]
  rfl

/-- Replaces the occurrences of a pattern. -/
def replaceAll (pattern replacement text : List Char) : List Char :=
  if pattern.isEmpty then interleave replacement text else substitute pattern replacement 0 text

theorem replaceAll_self {pattern : List Char} (hne : pattern ≠ []) (replacement : List Char) :
    replaceAll pattern replacement pattern = replacement := by
  have h := substitute_append_of_occurrence hne replacement []
  rw [List.append_nil] at h
  simp [replaceAll, hne, h, substitute]

end Replacement

end FusedKernel
