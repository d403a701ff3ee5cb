import FusedKernel.Access.SymbolTable
import Mathlib.Data.List.Basic

/-!
# What an access takes from its format

An access is written from fragments that do not depend on the format: literal texts, and places for
the two index texts and for the lane.  There is a place for a lane exactly where an entry of a
stored object is accessed, so two lanes give the same text only if there is no such access.

* `Fragment`, `Fragment.fillAll` — a piece of a text, and the text that a format makes of pieces.
* `Symbol.fragments` — the pieces of an access.

Principal results: `render_eq_fillAll` — every access is written from its fragments;
`laneSuffix_eq_of_fillAll_eq` — a text that has a place for the lane shows the lane.
-/

set_option autoImplicit false

namespace FusedKernel

/-- A piece of a text, the same for all formats. -/
inductive Fragment where
  | literal (text : String)
  /-- The place of the first index text. -/
  | first
  /-- The place of the second index text. -/
  | second
  /-- The place of the component suffix. -/
  | lane
  deriving DecidableEq, Repr

namespace Fragment

/-- What a format puts in place of a fragment. -/
def fill (format : AccessFormat) : Fragment → String
  | literal text => text
  | first => format.first
  | second => format.second
  | lane => format.laneSuffix

/-- The text a format makes of fragments in a row. -/
def fillAll (format : AccessFormat) (fragments : List Fragment) : String :=
  String.join (fragments.map (fill format))

variable {format format' : AccessFormat} {fragments : List Fragment}

theorem fillAll_cons (format : AccessFormat) (fragment : Fragment) (fragments : List Fragment) :
    fillAll format (fragment :: fragments) = fragment.fill format ++ fillAll format fragments := by
  rw [fillAll, List.map_cons, String.join_cons]
  rfl

theorem fillAll_append (format : AccessFormat) (fragments more : List Fragment) :
    fillAll format (fragments ++ more) = fillAll format fragments ++ fillAll format more := by
  rw [fillAll, List.map_append, String.join_append]
  rfl

theorem fillAll_literal (format : AccessFormat) (text : String) :
    fillAll format [literal text] = text := by
  rw [fillAll_cons]
  exact String.append_empty

/-! ## Texts in two formats -/

theorem fillAll_congr (h : ∀ fragment ∈ fragments, fragment.fill format = fragment.fill format') :
    fillAll format fragments = fillAll format' fragments := by
  rw [fillAll, fillAll, List.map_congr_left h]

/-- Formats that differ in the lane alone give texts that differ in length by the suffixes alone. -/
theorem length_fillAll (hfill : ∀ fragment, fragment ≠ lane →
      fragment.fill format = fragment.fill format') (fragments : List Fragment) :
    (fillAll format fragments).length + fragments.count lane * format'.laneSuffix.length =
      (fillAll format' fragments).length + fragments.count lane * format.laneSuffix.length := by
  induction fragments with
  | nil => simp [fillAll]
  | cons fragment fragments ih =>
    rw [fillAll_cons, fillAll_cons, String.length_append, String.length_append]
    by_cases hlane : fragment = lane
    · subst hlane
      rw [List.count_cons_self, Nat.add_mul, Nat.add_mul]
      simp only [fill]
      omega
    · rw [List.count_cons_of_ne hlane, hfill fragment hlane]
      omega

/-- Pieces of the same lengths can be told from the whole. -/
theorem fill_eq_of_fillAll_eq
    (hlength : ∀ fragment, (fill format fragment).length = (fill format' fragment).length)
    (h : fillAll format fragments = fillAll format' fragments) :
    ∀ fragment ∈ fragments, fill format fragment = fill format' fragment := by
  induction fragments with
  | nil => simp
  | cons fragment fragments ih =>
    rw [fillAll_cons, fillAll_cons, ← String.toList_inj, String.toList_append,
      String.toList_append] at h
    obtain ⟨hfirst, hrest⟩ := List.append_inj h (by simp only [String.length_toList, hlength])
    rw [String.toList_inj] at hfirst hrest
    intro fragment' hmem
    rcases List.mem_cons.1 hmem with rfl | hmem
    · exact hfirst
    · exact ih hrest fragment' hmem

/-- **A text that has a place for the lane shows the lane.** -/
theorem laneSuffix_eq_of_fillAll_eq (hfill : ∀ fragment, fragment ≠ lane →
      fragment.fill format = fragment.fill format') (hmem : lane ∈ fragments)
    (h : fillAll format fragments = fillAll format' fragments) :
    format.laneSuffix = format'.laneSuffix := by
  -- Suffixes of different lengths would shift all that follows; the whole length rules them out.
  have hsuffix : format.laneSuffix.length = format'.laneSuffix.length := by
    have htotal := length_fillAll hfill fragments
    rw [h, Nat.add_left_cancel_iff] at htotal
    exact (Nat.eq_of_mul_eq_mul_left (List.count_pos_iff.2 hmem) htotal).symm
  refine fill_eq_of_fillAll_eq (fun fragment => ?_) h lane hmem
  by_cases hlane : fragment = lane
  · subst hlane
    exact hsuffix
  · rw [hfill fragment hlane]

end Fragment

/-- Different lanes have different suffixes, and so have a lane and none. -/
theorem AccessFormat.lane_eq_of_laneSuffix_eq {format format' : AccessFormat}
    (h : format.laneSuffix = format'.laneSuffix) : format.lane = format'.lane := by
  have hdigit : ∀ lane lane' : Fin laneCount,
      Nat.digitChar lane = Nat.digitChar lane' → lane = lane' := by decide
  unfold laneSuffix at h
  cases hlane : format.lane with
  | none =>
    cases hlane' : format'.lane with
    | none => rfl
    | some lane' =>
      rw [hlane, hlane'] at h
      simp [← String.toList_inj] at h
  | some lane =>
    cases hlane' : format'.lane with
    | none =>
      rw [hlane, hlane'] at h
      simp [← String.toList_inj] at h
    | some lane' =>
      rw [hlane, hlane'] at h
      simp only [← String.toList_inj, String.toList_append, List.append_cancel_left_eq,
        String.toList_singleton, List.cons.injEq, and_true] at h
      rw [hdigit lane lane' h]

namespace Symbol

/-- The pieces of an access. -/
def fragments : Symbol → List Fragment
  | verbatim text => [.literal text]
  | hostScalar name => [.literal name]
  | scalar name => [.literal ("*" ++ name)]
  | vector name => [.literal (name ++ "["), .first, .literal "]", .lane]
  | matrix name leadingDimension .rowMajor =>
    [.literal (name ++ "["), .first, .literal ("*" ++ leadingDimension ++ "+"), .second,
      .literal "]", .lane]
  | matrix name leadingDimension .columnMajor =>
    [.literal (name ++ "["), .first, .literal "+", .second,
      .literal ("*" ++ leadingDimension ++ "]"), .lane]
  | constant name => [.literal name]

/-- **Every access is written from its fragments.** -/
theorem render_eq_fillAll (format : AccessFormat) (symbol : Symbol) :
    symbol.render format = Fragment.fillAll format symbol.fragments := by
  rcases symbol with _ | _ | _ | _ | ⟨_, _, _ | _⟩ | _ <;>
    simp [render, fragments, matrixIndex, Fragment.fillAll, Fragment.fill, String.append_assoc]

/-- There is one place for a lane if the access is by an index, and none otherwise. -/
theorem count_lane_fragments (symbol : Symbol) :
    symbol.fragments.count .lane = if symbol.isIndexed then 1 else 0 := by
  rcases symbol with _ | _ | _ | _ | ⟨_, _, _ | _⟩ | _ <;> simp [fragments, isIndexed]

end Symbol

end FusedKernel
