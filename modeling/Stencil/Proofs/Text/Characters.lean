import Stencil.Proofs.Text.Slices

/-!
# The same text in bytes and in characters

The offset in characters is the number of characters whose first byte lies before the offset in
bytes, also where that one lies inside a character or behind the end. So two boundaries of a string
enclose the same text in both coordinates.
-/
namespace Stencil

open Text (charOffset)

namespace Text

/-- Where the characters of a string begin. -/
def firstBytes (source : String) : List Nat :=
  source.positions.toList.map (·.1.offset.byteIdx)

theorem charOffset_le_length (cs : List Char) (index : Nat) : charOffset cs index ≤ cs.length := by
  induction cs generalizing index with
  | nil => exact Nat.le_refl 0
  | cons c cs ih =>
    rw [charOffset, List.length_cons]
    split
    · omega
    · exact Nat.succ_le_succ (ih _)

/-- Behind a position, the characters that begin before an offset are those in front of it. -/
theorem countP_positionsFrom {source front back : String} {p : source.Pos}
    (h : p.Splits front back) (index : Nat) :
    (String.Model.positionsFrom p).countP (·.1.offset.byteIdx < index) =
      charOffset back.toList (index - p.offset.byteIdx) := by
  induction p using String.Pos.next_induction generalizing front back with
  | next p hp ih =>
    obtain ⟨back, rfl⟩ := h.exists_eq_singleton_append hp
    rw [String.Model.positionsFrom_eq_cons hp, List.countP_cons, ih h.next,
      String.Pos.byteIdx_offset_next, String.toList_append, String.toList_singleton,
      List.singleton_append, charOffset, Nat.sub_sub]
    by_cases hlt : p.offset.byteIdx < index
    · have hne : index - p.offset.byteIdx ≠ 0 := by omega
      simp [hlt, hne]
    · have hzero : index - p.offset.byteIdx = 0 := by omega
      have hbehind : index - (p.offset.byteIdx + (p.get hp).utf8Size) = 0 := by omega
      simp [hlt, hzero, hbehind]
  | endPos =>
    obtain ⟨-, rfl⟩ := String.splits_endPos_iff.mp h
    simp [charOffset]

theorem countP_firstBytes (source : String) (index : Nat) :
    (firstBytes source).countP (· < index) = charOffset source.toList index := by
  have h := countP_positionsFrom (String.splits_startPos source) index
  rw [firstBytes, String.toList_positions, List.countP_map]
  simpa [Function.comp_def] using h

/-- Each character between two offsets is one more. -/
theorem charOffset_eq_add (source : String) {i j : Nat} (h : i ≤ j) :
    charOffset source.toList j =
      charOffset source.toList i + (firstBytes source).countP fun b => i ≤ b ∧ b < j := by
  rw [← countP_firstBytes, ← countP_firstBytes,
    List.countP_eq_countP_filter_add _ (· < j) (· < i), List.countP_filter, List.countP_filter]
  congr 1
  · apply List.countP_congr
    intro b _
    simp only [Bool.and_eq_true, decide_eq_true_eq]
    omega
  · apply List.countP_congr
    intro b _
    simp only [Bool.and_eq_true, Bool.not_eq_true', decide_eq_true_eq, decide_eq_false_iff_not]
    omega

end Text

namespace Span

/-- Two boundaries of a string enclose the text between them. -/
theorem covers_extract {source : String} {p q : source.Pos} (h : p ≤ q) :
    Covers source.toList ⟨p.offset.byteIdx, q.offset.byteIdx⟩ (String.extract p q).toList := by
  obtain ⟨front, back, hp, hq⟩ :=
    String.copy_slice_eq_iff_splits.mp ⟨h, (String.extract_eq_copy_slice p q h).symm⟩
  have hstart : p.offset.byteIdx = Text.byteLength front.toList := by
    rw [hp.offset_eq_rawEndPos, Text.byteLength_toList]
    rfl
  have hstop : q.offset.byteIdx = Text.byteLength (front ++ String.extract p q).toList := by
    rw [hq.offset_eq_rawEndPos, Text.byteLength_toList]
    rfl
  have hsource : source.toList = (front ++ String.extract p q ++ back).toList :=
    congrArg String.toList hq.eq_append
  rw [hsource, hstart, hstop]
  exact ⟨front.toList, back.toList, by simp, by simp⟩

/-- What a span covers is the text between its offsets in characters. -/
theorem Covers.extract_eq {source cs : List Char} {s : Span} (h : s.Covers source cs) :
    source.extract (charOffset source s.start) (charOffset source s.stop) = cs := by
  obtain ⟨before, after, rfl, rfl⟩ := h
  have hstart := Text.charOffset_append before (cs ++ after)
  have hstop := Text.charOffset_append (before ++ cs) after
  rw [← List.append_assoc] at hstart
  rw [Text.byteLength_append] at hstop
  rw [hstart, hstop, List.extract_eq_drop_take', List.take_left, List.drop_left]

end Span

namespace Text

/-- Between two boundaries of a string, the same text stands in bytes and in characters. Between any
two offsets, the offset in characters grows by the number of characters that begin there, and it
stays within the length of the string. -/
theorem charOffset_converts (source : String) :
    (∀ p q : source.Pos, p ≤ q →
      source.toList.extract (charOffset source.toList p.offset.byteIdx)
        (charOffset source.toList q.offset.byteIdx) = (String.extract p q).toList) ∧
    ∀ i j, i ≤ j →
      charOffset source.toList i ≤ charOffset source.toList j ∧
        charOffset source.toList j ≤ source.length ∧
        charOffset source.toList j =
          charOffset source.toList i + (firstBytes source).countP fun b => i ≤ b ∧ b < j := by
  constructor
  · intro p q h
    exact (Span.covers_extract h).extract_eq
  · intro i j h
    have hle := charOffset_le_length source.toList j
    rw [String.length_toList] at hle
    exact ⟨charOffset_mono _ h, hle, charOffset_eq_add source h⟩

/-- With characters of one to four bytes, first between boundaries and then from inside a character
to behind the end. -/
theorem charOffset_converts_clef :
    (∃ p q : String.Pos "aü✓𝄞b", p ≤ q ∧ p.offset.byteIdx = 3 ∧ q.offset.byteIdx = 10 ∧
      "aü✓𝄞b".toList.extract (charOffset "aü✓𝄞b".toList 3) (charOffset "aü✓𝄞b".toList 10) =
        (String.extract p q).toList ∧
      (String.extract p q).toList = ['✓', '𝄞']) ∧
    5 ≤ 20 ∧ charOffset "aü✓𝄞b".toList 5 = 3 ∧ charOffset "aü✓𝄞b".toList 20 = 5 ∧
      (firstBytes "aü✓𝄞b").countP (fun b => 5 ≤ b ∧ b < 20) = 2 := by
  obtain ⟨hslices, hgrows⟩ := charOffset_converts "aü✓𝄞b"
  let p : String.Pos "aü✓𝄞b" := ⟨⟨3⟩, by decide +kernel⟩
  let q : String.Pos "aü✓𝄞b" := ⟨⟨10⟩, by decide +kernel⟩
  have hle : p ≤ q := by decide +kernel
  have hstart : charOffset "aü✓𝄞b".toList 5 = 3 := by decide +kernel
  have hstop : charOffset "aü✓𝄞b".toList 20 = 5 := by decide +kernel
  obtain ⟨-, -, hcount⟩ := hgrows 5 20 (by decide)
  rw [hstart, hstop] at hcount
  exact ⟨⟨p, q, hle, rfl, rfl, hslices p q hle, by decide +kernel⟩, by decide, hstart, hstop,
    by omega⟩

end Text
end Stencil
