import Stencil.Text.Position

/-!
# Bytes and characters

Lists of characters and strings have the same lengths in bytes. The offset in characters grows with
the offset in bytes, and on the boundary of a prefix it is the length of the prefix.
-/
namespace Stencil.Text

theorem utf8ByteSize_ofList (cs : List Char) :
    (String.ofList cs).utf8ByteSize = byteLength cs := by
  induction cs with
  | nil => rfl
  | cons c cs ih =>
    rw [← List.singleton_append, String.ofList_append, String.utf8ByteSize_append, ih]
    simp

theorem byteLength_toList (s : String) : byteLength s.toList = s.utf8ByteSize := by
  rw [← utf8ByteSize_ofList, String.ofList_toList]

theorem byteLength_pos {cs : List Char} (h : cs ≠ []) : 0 < byteLength cs := by
  cases cs with
  | nil => exact absurd rfl h
  | cons c cs =>
    have hc := c.utf8Size_pos
    simp only [byteLength_cons]
    omega

theorem charOffset_mono (cs : List Char) {i j : Nat} (h : i ≤ j) :
    charOffset cs i ≤ charOffset cs j := by
  induction cs generalizing i j with
  | nil => simp [charOffset]
  | cons c cs ih =>
    simp only [charOffset]
    by_cases hi : i = 0
    · simp [hi]
    · have hj : j ≠ 0 := by omega
      have hr := ih (show i - c.utf8Size ≤ j - c.utf8Size by omega)
      simp [hi, hj, hr]

/-- Where a prefix ends, its characters are counted. -/
theorem charOffset_append (a b : List Char) : charOffset (a ++ b) (byteLength a) = a.length := by
  induction a with
  | nil => simp
  | cons c a ih =>
    have hc := c.utf8Size_pos
    have hne : c.utf8Size + byteLength a ≠ 0 := by omega
    rw [List.cons_append, byteLength_cons, charOffset, if_neg hne, Nat.add_sub_cancel_left, ih,
      List.length_cons]

/-- Between two boundaries of a text lies a character, so their offsets differ. -/
theorem charOffset_lt (a : List Char) {b : List Char} (h : b ≠ []) :
    charOffset (a ++ b) (byteLength a) < charOffset (a ++ b) (byteLength (a ++ b)) := by
  have hall := charOffset_append (a ++ b) []
  rw [List.append_nil] at hall
  rw [charOffset_append, hall, List.length_append]
  have hb := List.length_pos_iff.mpr h
  omega

end Stencil.Text
