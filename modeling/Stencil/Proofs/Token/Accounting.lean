import Stencil.Proofs.Token.Spelling

/-!
# Nothing of a source is lost

The spans of the tokens of a source are disjoint and in order, and each token tells what its span
covers. A byte of no token is a blank inside a tag.
-/
namespace Stencil

open Text (byteLength)

/-! ## Blanks -/

/-- Among characters of one byte each, one stands at every offset. -/
theorem Text.exists_char_at {cs : List Char} (hsize : ∀ c ∈ cs, c.utf8Size = 1) {i : Nat}
    (h : i < byteLength cs) :
    ∃ before c after, cs = before ++ c :: after ∧ byteLength before = i := by
  induction cs generalizing i with
  | nil => simp at h
  | cons c cs ih =>
    obtain ⟨hc, hcs⟩ := List.forall_mem_cons.mp hsize
    cases i with
    | zero => exact ⟨[], c, cs, rfl, rfl⟩
    | succ i =>
      rw [byteLength_cons, hc] at h
      obtain ⟨before, d, after, rfl, rfl⟩ := ih hcs (i := i) (by omega)
      exact ⟨c :: before, d, after, rfl, by rw [byteLength_cons, hc]; omega⟩

namespace Token

theorem utf8Size_of_isTagBlank {c : Char} (h : isTagBlank c = true) : c.utf8Size = 1 := by
  simp only [isTagBlank, Bool.or_eq_true, beq_iff_eq] at h
  rcases h with ((rfl | rfl) | rfl) | rfl <;> rfl

/-- The byte at an offset of a source is a space, a tab, a line feed or a carriage return. -/
def BlankAt (source : List Char) (i : Nat) : Prop :=
  ∃ before c after, source = before ++ c :: after ∧ byteLength before = i ∧ isTagBlank c = true

theorem blankAt_of_coversAll {source : List Char} {low high i : Nat}
    (h : Span.CoversAll source isTagBlank ⟨low, high⟩) (hlow : low ≤ i) (hhigh : i < high) :
    BlankAt source i := by
  obtain ⟨cs, ⟨before, after, rfl, hspan⟩, hblank⟩ := h
  obtain ⟨rfl, rfl⟩ := Span.mk.inj hspan
  obtain ⟨front, c, back, rfl, hfront⟩ := Text.exists_char_at
    (fun c hc => utf8Size_of_isTagBlank (hblank c hc)) (i := i - byteLength before) (by omega)
  refine ⟨before ++ front, c, back ++ after, by simp, ?_, hblank c (by simp)⟩
  rw [Text.byteLength_append]
  omega

/-! ## Inside a tag -/

/-- The last mark of a tag among these tokens opens one. -/
def InTag (ts : List (Located Token)) : Prop :=
  ∃ before mark after, ts = before ++ mark :: after ∧
    (mark.value = .tagOpen ∨ mark.value = .closeTagOpen) ∧
    ∀ t ∈ after, t.value ≠ .tagClose ∧ t.value ≠ .selfClose

theorem InTag.behind {ts : List (Located Token)} (h : InTag ts) (t : Located Token) :
    InTag (t :: ts) := by
  obtain ⟨before, mark, after, rfl, hmark, hafter⟩ := h
  exact ⟨t :: before, mark, after, rfl, hmark, hafter⟩

/-- The place behind tokens that are read from a mode is inside a tag. -/
def Mode.LeadsInside (mode : Mode) (ts : List (Located Token)) : Prop :=
  InTag ts ∨ mode = .tag ∧ ∀ t ∈ ts, t.value ≠ .tagClose ∧ t.value ≠ .selfClose

theorem Mode.LeadsInside.cons {mode : Mode} {t : Located Token} {ts : List (Located Token)}
    (hreads : mode.Reads t.value) (h : (mode.after t.value).LeadsInside ts) :
    mode.LeadsInside (t :: ts) := by
  obtain hin | ⟨hafter, hnone⟩ := h
  · exact .inl (hin.behind t)
  by_cases hmark : t.value = .tagOpen ∨ t.value = .closeTagOpen
  · exact .inl ⟨[], t, ts, rfl, hmark, hnone⟩
  · refine .inr ?_
    rw [List.forall_mem_cons]
    obtain ⟨token, span⟩ := t
    cases mode <;> cases token <;> simp_all [Mode.Reads, Mode.after, next]

/-! ## Between tokens -/

theorem Mode.Between.le {source : List Char} {mode : Mode} {s : Span}
    (h : mode.Between source s) : s.start ≤ s.stop := by
  cases mode with
  | content => exact Nat.le_of_eq h
  | tag =>
    obtain ⟨cs, hcs, -⟩ := h
    exact hcs.le

/-- A place between two tokens. -/
theorem Mode.Between.blankAt {source : List Char} {mode : Mode} {low high i : Nat}
    (h : mode.Between source ⟨low, high⟩) (hlow : low ≤ i) (hhigh : i < high) :
    mode = .tag ∧ BlankAt source i := by
  cases mode with
  | content =>
    have heq : low = high := h
    omega
  | tag => exact ⟨rfl, blankAt_of_coversAll h hlow hhigh⟩

theorem Faithful.lt {source : List Char} {t : Located Token} (h : Faithful source t) :
    t.span.start < t.span.stop := by
  obtain ⟨cs, hne, hcovers, -⟩ := h
  have hpos := Text.byteLength_pos hne
  rw [hcovers.stop_eq]
  omega

namespace Accounted

variable {source : List Char} {mode : Mode} {low high : Nat} {ts : List (Located Token)}

theorem faithful (h : Accounted source mode low high ts) : ∀ t ∈ ts, Faithful source t := by
  induction ts generalizing mode low with
  | nil => simp
  | cons t ts ih => exact List.forall_mem_cons.mpr ⟨h.2.2.1, ih h.2.2.2⟩

theorem low_le (h : Accounted source mode low high ts) : ∀ t ∈ ts, low ≤ t.span.start := by
  induction ts generalizing mode low with
  | nil => simp
  | cons t ts ih =>
    obtain ⟨hbetween, -, hfaithful, hrest⟩ := h
    refine List.forall_mem_cons.mpr ⟨hbetween.le, fun u hu => ?_⟩
    calc low ≤ t.span.start := hbetween.le
      _ ≤ t.span.stop := Nat.le_of_lt hfaithful.lt
      _ ≤ u.span.start := ih hrest u hu

theorem pairwise (h : Accounted source mode low high ts) :
    ts.Pairwise (·.span.stop ≤ ·.span.start) := by
  induction ts generalizing mode low with
  | nil => exact .nil
  | cons t ts ih => exact .cons h.2.2.2.low_le (ih h.2.2.2)

/-- A place outside all tokens: those in front of it lead inside a tag. -/
theorem outside (h : Accounted source mode low high ts) {i : Nat} (hlow : low ≤ i)
    (hhigh : i < high) (hout : ∀ t ∈ ts, ¬ (t.span.start ≤ i ∧ i < t.span.stop)) :
    BlankAt source i ∧ ∃ front back, ts = front ++ back ∧ (∀ t ∈ front, t.span.stop ≤ i) ∧
      (∀ t ∈ back, i < t.span.start) ∧ mode.LeadsInside front := by
  induction ts generalizing mode low with
  | nil =>
    obtain ⟨rfl, hblank⟩ := Mode.Between.blankAt h hlow hhigh
    exact ⟨hblank, [], [], rfl, by simp, by simp, .inr ⟨rfl, by simp⟩⟩
  | cons t ts ih =>
    obtain ⟨hbetween, hreads, hfaithful, hrest⟩ := h
    obtain ⟨hnot, hout⟩ := List.forall_mem_cons.mp hout
    by_cases hi : i < t.span.start
    · obtain ⟨rfl, hblank⟩ := hbetween.blankAt hlow hi
      refine ⟨hblank, [], t :: ts, rfl, by simp, ?_, .inr ⟨rfl, by simp⟩⟩
      refine List.forall_mem_cons.mpr ⟨hi, fun u hu => ?_⟩
      have hlt := hfaithful.lt
      have hle := hrest.low_le u hu
      omega
    · have hstop : t.span.stop ≤ i := by omega
      obtain ⟨hblank, front, back, rfl, hfront, hback, hinside⟩ := ih hrest hstop hout
      exact ⟨hblank, t :: front, back, rfl, List.forall_mem_cons.mpr ⟨hstop, hfront⟩, hback,
        hinside.cons hreads⟩

end Accounted

/-- Every byte of a source belongs to a token that tells what its span covers, or it is a blank
inside a tag. Spans are not empty, lie within the source, and are disjoint and in order. -/
theorem lex_accounts (source : String) :
    (lex source).Pairwise (·.span.stop ≤ ·.span.start) ∧
      (∀ t ∈ lex source, t.span.start < t.span.stop ∧ t.span.stop ≤ source.utf8ByteSize ∧
        ∃ cs, t.span.Covers source.toList cs ∧ t.value.Spells cs ∧ t.value.EndsFirst cs) ∧
      ∀ i < source.utf8ByteSize, (∀ t ∈ lex source, ¬ (t.span.start ≤ i ∧ i < t.span.stop)) →
        BlankAt source.toList i ∧ ∃ front back, lex source = front ++ back ∧
          (∀ t ∈ front, t.span.stop ≤ i) ∧ (∀ t ∈ back, i < t.span.start) ∧ InTag front := by
  have hall := accounted_lex source
  refine ⟨hall.pairwise, fun t ht => ?_, fun i hi hout => ?_⟩
  · have hlt := (hall.faithful t ht).lt
    obtain ⟨cs, -, hcovers, htells⟩ := hall.faithful t ht
    have hle := hcovers.stop_le
    rw [Text.byteLength_toList] at hle
    exact ⟨hlt, hle, cs, hcovers, htells⟩
  · obtain ⟨hblank, front, back, heq, hfront, hback, hinside⟩ :=
      hall.outside (Nat.zero_le i) hi hout
    refine ⟨hblank, front, back, heq, hfront, hback, ?_⟩
    -- A source begins between tags.
    obtain hin | ⟨hmode, -⟩ := hinside
    · exact hin
    · cases hmode

/-- The blank between two names. -/
theorem lex_accounts_blank :
    (∀ t ∈ lex "<a b>", ¬ (t.span.start ≤ 2 ∧ 2 < t.span.stop)) ∧ BlankAt "<a b>".toList 2 ∧
      ∃ front back, lex "<a b>" = front ++ back ∧ InTag front := by
  have hout : ∀ t ∈ lex "<a b>", ¬ (t.span.start ≤ 2 ∧ 2 < t.span.stop) := by decide +kernel
  obtain ⟨hblank, front, back, heq, -, -, hin⟩ :=
    (lex_accounts "<a b>").2.2 2 (by decide +kernel) hout
  exact ⟨hout, hblank, front, back, heq, hin⟩

end Token
end Stencil
