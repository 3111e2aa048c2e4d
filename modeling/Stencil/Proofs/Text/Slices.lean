import Stencil.Proofs.Text.Offsets
import Stencil.Span

/-!
# Slices of a text

A span covers the characters between its two offsets, when both of them are boundaries between
characters. Spans that meet cover the characters of both, and spans in order cover what is between
them as well. Spans tile a range when each begins where the one before it ends.
-/
namespace Stencil

open Text (byteLength)

namespace Span

/-- The characters of a text between the two ends of a span, which are boundaries. -/
def Covers (source : List Char) (s : Span) (cs : List Char) : Prop :=
  ∃ before after, source = before ++ cs ++ after ∧
    s = ⟨byteLength before, byteLength before + byteLength cs⟩

/-- The characters between two offsets are all of some kind. -/
def CoversAll (source : List Char) (p : Char → Bool) (s : Span) : Prop :=
  ∃ cs, s.Covers source cs ∧ ∀ c ∈ cs, p c = true

/-- Spans one behind the other, from offset `low` to `high`. -/
def Tiles (low high : Nat) : List Span → Prop
  | [] => low = high
  | s :: ss => s.start = low ∧ low ≤ s.stop ∧ Tiles s.stop high ss

end Span

/-- Of two prefixes of a text the one with fewer bytes is a prefix of the other. -/
theorem Text.exists_append_of_byteLength_le {a b c d : List Char} (h : a ++ b = c ++ d)
    (hl : byteLength a ≤ byteLength c) : ∃ m, c = a ++ m ∧ b = m ++ d := by
  induction a generalizing c with
  | nil => exact ⟨c, rfl, h⟩
  | cons x a ih =>
    cases c with
    | nil =>
      have hx := x.utf8Size_pos
      simp only [byteLength_nil, byteLength_cons] at hl
      omega
    | cons y c =>
      obtain ⟨rfl, htail⟩ := List.cons.inj h
      rw [byteLength_cons, byteLength_cons] at hl
      obtain ⟨m, rfl, rfl⟩ := ih htail (by omega)
      exact ⟨m, rfl, rfl⟩

theorem Text.eq_nil_of_byteLength {cs : List Char} (h : byteLength cs = 0) : cs = [] := by
  cases cs with
  | nil => rfl
  | cons c cs =>
    have hc := c.utf8Size_pos
    rw [byteLength_cons] at h
    omega

/-- A prefix of a text is known by its length in bytes. -/
theorem Text.append_inj_of_byteLength {a b c d : List Char} (h : a ++ b = c ++ d)
    (hl : byteLength a = byteLength c) : a = c ∧ b = d := by
  obtain ⟨m, rfl, rfl⟩ := exists_append_of_byteLength_le h (Nat.le_of_eq hl)
  rw [byteLength_append] at hl
  have hm : m = [] := eq_nil_of_byteLength (by omega)
  simp [hm]

namespace Span.Covers

variable {source : List Char} {s t : Span} {cs ds : List Char}

theorem stop_eq (h : s.Covers source cs) : s.stop = s.start + byteLength cs := by
  obtain ⟨before, after, -, rfl⟩ := h
  rfl

theorem le (h : s.Covers source cs) : s.start ≤ s.stop := by
  rw [h.stop_eq]
  omega

theorem stop_le (h : s.Covers source cs) : s.stop ≤ byteLength source := by
  obtain ⟨before, after, rfl, rfl⟩ := h
  rw [Text.byteLength_append, Text.byteLength_append]
  exact Nat.le_add_right _ _

theorem eq_nil (h : s.Covers source cs) (hs : s.stop ≤ s.start) : cs = [] := by
  have hstop := h.stop_eq
  exact Text.eq_nil_of_byteLength (by omega)

/-- A span covers one text only. -/
theorem unique (h : s.Covers source cs) (h' : s.Covers source ds) : cs = ds := by
  obtain ⟨before, after, rfl, rfl⟩ := h
  obtain ⟨before', after', heq, hs⟩ := h'
  obtain ⟨hstart, hstop⟩ := Span.mk.inj hs
  rw [List.append_assoc, List.append_assoc] at heq
  obtain ⟨-, htail⟩ := Text.append_inj_of_byteLength heq hstart
  exact (Text.append_inj_of_byteLength htail (by omega)).1

/-- The characters between two spans, with those of both. -/
theorem join (h : s.Covers source cs) (h' : t.Covers source ds) (hle : s.stop ≤ t.start) :
    ∃ between, Covers source ⟨s.start, t.stop⟩ (cs ++ between ++ ds) ∧
      Covers source ⟨s.stop, t.start⟩ between := by
  obtain ⟨before, after, rfl, rfl⟩ := h
  obtain ⟨before', after', heq, rfl⟩ := h'
  rw [List.append_assoc before'] at heq
  obtain ⟨between, rfl, rfl⟩ :=
    Text.exists_append_of_byteLength_le heq (by rw [Text.byteLength_append]; exact hle)
  refine ⟨between, ⟨before, after', by simp, ?_⟩, ⟨before ++ cs, ds ++ after', by simp, ?_⟩⟩
  · simp
    omega
  · simp [Nat.add_assoc]

/-- Spans that meet. -/
theorem append {low mid high : Nat} (h : Covers source ⟨low, mid⟩ cs)
    (h' : Covers source ⟨mid, high⟩ ds) : Covers source ⟨low, high⟩ (cs ++ ds) := by
  obtain ⟨between, hall, hbetween⟩ := h.join h' (Nat.le_refl mid)
  rw [hbetween.eq_nil (Nat.le_refl mid), List.append_nil] at hall
  exact hall

end Span.Covers

/-- Nothing stands at a boundary. -/
theorem Span.covers_nil (before after : List Char) :
    Covers (before ++ after) ⟨byteLength before, byteLength before⟩ [] :=
  ⟨before, after, by simp, rfl⟩

theorem Span.CoversAll.append {source : List Char} {p : Char → Bool} {low mid high : Nat}
    (h : CoversAll source p ⟨low, mid⟩) (h' : CoversAll source p ⟨mid, high⟩) :
    CoversAll source p ⟨low, high⟩ := by
  obtain ⟨cs, hcs, hall⟩ := h
  obtain ⟨ds, hds, hall'⟩ := h'
  exact ⟨cs ++ ds, hcs.append hds, List.forall_mem_append.mpr ⟨hall, hall'⟩⟩

theorem Span.Tiles.le {low high : Nat} {ss : List Span} (h : Tiles low high ss) : low ≤ high := by
  induction ss generalizing low with
  | nil => exact Nat.le_of_eq h
  | cons s ss ih => exact Nat.le_trans h.2.1 (ih h.2.2)

theorem Span.Tiles.le_start {low high : Nat} {ss : List Span} (h : Tiles low high ss) :
    ∀ s ∈ ss, low ≤ s.start := by
  induction ss generalizing low with
  | nil => simp
  | cons s ss ih =>
    obtain ⟨hstart, hstop, hrest⟩ := h
    rw [List.forall_mem_cons]
    exact ⟨Nat.le_of_eq hstart.symm, fun t ht => Nat.le_trans hstop (ih hrest t ht)⟩

end Stencil
