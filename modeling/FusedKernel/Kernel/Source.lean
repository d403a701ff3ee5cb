import FusedKernel.Kernel.Body
import FusedKernel.Kernel.Replacement

/-!
# Kernel sources and templates

A `SourceText` is kernel code as plain text.  It may come from an assembled body, or from a
file that holds placeholders; `SourceText.replace` puts generated text in their place.
Nothing here asks whether the text is valid code.

The bytes of a file have to be well-formed UTF-8.  A byte order mark is part of the text.

Principal results: `content_replace`, `ofTemplate_eq_ok_iff`.
-/

set_option autoImplicit false

namespace FusedKernel

/-- The text of a kernel, or of a template for one. -/
structure SourceText where
  content : String
  deriving DecidableEq, Repr

namespace SourceText

/-- The text of an assembled body. -/
def ofBody (body : KernelBody) : SourceText := ⟨body.text⟩

/-- Puts a text in place of a pattern, wherever a scan from the left finds it. -/
def replace (source : SourceText) (pattern replacement : String) : SourceText :=
  ⟨String.ofList
    (Replacement.replaceAll pattern.toList replacement.toList source.content.toList)⟩

theorem content_replace (source : SourceText) (pattern replacement : String) :
    (source.replace pattern replacement).content.toList =
      Replacement.replaceAll pattern.toList replacement.toList source.content.toList := by
  simp [replace]

end SourceText

/-- Why a template cannot be read. -/
inductive TemplateError where
  | notFound
  | invalidText
  deriving DecidableEq, Repr

/-- The wording of an error about the template at `path`. -/
def TemplateError.message (path : String) (e : TemplateError) : String :=
  s!"reading kernel template {path}: " ++
    match e with
    | notFound => "No such file or directory (os error 2)"
    | invalidText => "stream did not contain valid UTF-8"

/-- The source in a template file, given the bytes of the file if it exists. -/
def SourceText.ofTemplate : Option ByteArray → Except TemplateError SourceText
  | none => .error .notFound
  | some bytes =>
    match String.fromUTF8? bytes with
    | some content => .ok ⟨content⟩
    | none => .error .invalidText

theorem SourceText.ofTemplate_eq_ok_iff {bytes : ByteArray} {source : SourceText} :
    ofTemplate (some bytes) = .ok source ↔ source.content.toUTF8 = bytes := by
  obtain ⟨content⟩ := source
  unfold ofTemplate String.fromUTF8?
  by_cases h : bytes.IsValidUTF8
  · simp only [dif_pos h, Except.ok.injEq, mk.injEq]
    rw [← String.toByteArray_inj]
    exact eq_comm
  · simp only [dif_neg h, reduceCtorEq, false_iff]
    exact fun heq => h (heq ▸ content.isValidUTF8)

end FusedKernel
