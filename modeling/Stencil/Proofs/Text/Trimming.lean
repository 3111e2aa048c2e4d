import Mathlib.Data.List.DropRight
import Stencil.Text.Blank

/-!
# Trimming

A text is what trimming leaves of it, with blanks in front and behind. Blanks around a text make no
difference to trimming, so a trimmed text stays as it is.
-/
namespace Stencil.Text

/-- A text with blanks in front of it and behind it. -/
def Pads (inner cs : List Char) : Prop :=
  ∃ before behind, (∀ c ∈ before, isBlank c = true) ∧ (∀ c ∈ behind, isBlank c = true) ∧
    cs = before ++ inner ++ behind

theorem trimEnd_append_blanks {cs behind : List Char} (h : ∀ c ∈ behind, isBlank c = true) :
    trimEnd (cs ++ behind) = trimEnd cs := by
  rw [trimEnd, List.reverse_append, List.dropWhile_append_of_pos]
  · rfl
  · simpa using h

/-- Blanks around a text make no difference to trimming. -/
theorem Pads.trimChars_eq {inner cs : List Char} (h : Pads inner cs) :
    trimChars cs = trimChars inner := by
  obtain ⟨before, behind, hbefore, hbehind, rfl⟩ := h
  rw [trimChars, List.append_assoc, List.dropWhile_append_of_pos hbefore, List.dropWhile_append]
  split
  · rename_i hempty
    rw [trimChars, List.isEmpty_iff.mp hempty, List.dropWhile_eq_nil_iff.mpr hbehind]
  · exact trimEnd_append_blanks hbehind

/-- What trimming takes away are blanks. -/
theorem pads_trimChars (cs : List Char) : Pads (trimChars cs) cs := by
  refine ⟨cs.takeWhile isBlank, (cs.dropWhile isBlank).rtakeWhile isBlank,
    fun c hc => List.mem_takeWhile_imp hc, fun c hc => ?_, ?_⟩
  · exact List.mem_takeWhile_imp (List.mem_reverse.mp hc)
  · calc cs
      _ = cs.takeWhile isBlank ++ cs.dropWhile isBlank := List.takeWhile_append_dropWhile.symm
      _ = cs.takeWhile isBlank ++ (trimChars cs ++ (cs.dropWhile isBlank).rtakeWhile isBlank) :=
        congrArg _ List.rdropWhile_append_rtakeWhile.symm
      _ = cs.takeWhile isBlank ++ trimChars cs ++ (cs.dropWhile isBlank).rtakeWhile isBlank :=
        (List.append_assoc ..).symm

theorem Pads.trans {inner cs ds : List Char} (h : Pads inner cs) (hd : Pads cs ds) :
    Pads inner ds := by
  obtain ⟨before, behind, hbefore, hbehind, rfl⟩ := h
  obtain ⟨first, last, hfirst, hlast, rfl⟩ := hd
  refine ⟨first ++ before, behind ++ last, List.forall_mem_append.mpr ⟨hfirst, hbefore⟩,
    List.forall_mem_append.mpr ⟨hbehind, hlast⟩, ?_⟩
  simp only [List.append_assoc]

@[simp] theorem trimChars_trimChars (cs : List Char) : trimChars (trimChars cs) = trimChars cs :=
  (pads_trimChars cs).trimChars_eq.symm

@[simp] theorem trim_trim (s : String) : trim (trim s) = trim s := by
  simp [trim]

end Stencil.Text
