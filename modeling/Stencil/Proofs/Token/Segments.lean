import Mathlib.Data.List.Induction
import Stencil.Proofs.Text.Offsets
import Stencil.Proofs.Token.Ascending
import Stencil.Token.Lexer

/-!
# The pieces of a text

Lexing cuts a text into pieces, each with a token or skipped, and the span of a token is the place
of its piece. So spans ascend, lie within the text, and start and end between characters. What is
skipped are blanks inside a tag.
-/
namespace Stencil.Token

/-- Characters that are read together, in a mode, with their token unless they are skipped. -/
structure Segment where
  mode : Mode
  token : Option Token
  chars : List Char

namespace Segment

/-- The text that was cut. -/
def joined (segments : List Segment) : List Char :=
  segments.flatMap (·.chars)

@[simp] theorem joined_nil : joined [] = [] := rfl
@[simp] theorem joined_cons (s : Segment) (rest : List Segment) :
    joined (s :: rest) = s.chars ++ joined rest := rfl
@[simp] theorem joined_append (a b : List Segment) : joined (a ++ b) = joined a ++ joined b := by
  simp [joined]

/-- The tokens of pieces that start at offset `pos`. -/
def tokens (pos : Nat) : List Segment → List (Located Token)
  | [] => []
  | s :: rest =>
    let stop := pos + Text.byteLength s.chars
    match s.token with
    | some token => ⟨token, ⟨pos, stop⟩⟩ :: tokens stop rest
    | none => tokens stop rest

theorem tokens_append (pos : Nat) (a b : List Segment) :
    tokens pos (a ++ b) = tokens pos a ++ tokens (pos + Text.byteLength (joined a)) b := by
  induction a generalizing pos with
  | nil => rfl
  | cons s a ih =>
    have hr := ih (pos + Text.byteLength s.chars)
    rw [Nat.add_assoc, ← Text.byteLength_append] at hr
    simp only [List.cons_append, tokens, hr, joined_cons]
    cases s.token <;> rfl

end Segment

def segments (mode : Mode) : List Char → List Segment
  | [] => []
  | c :: cs =>
    let piece := mode.piece c cs
    ⟨mode, piece.token, c :: cs.take piece.extra⟩ :: segments piece.mode (cs.drop piece.extra)
termination_by cs => cs.length

theorem lexFrom_eq (mode : Mode) (pos : Nat) (cs : List Char) :
    lexFrom mode pos cs = Segment.tokens pos (segments mode cs) := by
  fun_induction lexFrom mode pos cs with
  | case1 => rw [segments, Segment.tokens]
  | case2 mode pos c cs piece stop rest token h ih =>
    rw [segments, Segment.tokens]
    simp only [piece] at h
    rw [h]
    exact congrArg _ ih
  | case3 mode pos c cs piece stop rest h ih =>
    rw [segments, Segment.tokens]
    simp only [piece] at h
    rw [h]
    exact ih

theorem joined_segments (mode : Mode) (cs : List Char) :
    Segment.joined (segments mode cs) = cs := by
  fun_induction segments mode cs with
  | case1 => rfl
  | case2 mode c cs piece ih => simp [ih]

/-- Every piece has a character. -/
theorem chars_ne_nil {mode : Mode} {cs : List Char} : ∀ s ∈ segments mode cs, s.chars ≠ [] := by
  fun_induction segments mode cs with
  | case1 => simp
  | case2 mode c cs piece ih => simpa using ih

/-- Only a blank inside a tag is skipped. -/
theorem piece_skipped {mode : Mode} {c : Char} {cs : List Char}
    (h : (mode.piece c cs).token = none) :
    mode = .tag ∧ isTagBlank c = true ∧ (mode.piece c cs).extra = 0 := by
  cases mode with
  | content =>
    simp only [Mode.piece, contentPiece] at h
    repeat' split at h
    all_goals cases h
  | tag =>
    simp only [Mode.piece, tagPiece, literalPiece, expressionPiece] at h ⊢
    by_cases hc : isTagBlank c = true
    · simp [hc]
    · rw [if_neg hc] at h
      repeat' split at h
      all_goals cases h

theorem skipped_segment {mode : Mode} {cs : List Char} :
    ∀ s ∈ segments mode cs, s.token = none →
      s.mode = .tag ∧ ∃ c, isTagBlank c = true ∧ s.chars = [c] := by
  fun_induction segments mode cs with
  | case1 => simp
  | case2 mode c cs piece ih =>
    intro s hs hn
    rcases List.mem_cons.mp hs with rfl | hs
    · obtain ⟨hm, hc, he⟩ := piece_skipped hn
      exact ⟨hm, c, hc, by simp [piece, he]⟩
    · exact ih s hs hn

theorem ascending_tokens (pos : Nat) {segments : List Segment}
    (h : ∀ s ∈ segments, s.chars ≠ []) :
    Ascending pos (pos + Text.byteLength (Segment.joined segments))
      (Segment.tokens pos segments) := by
  induction segments generalizing pos with
  | nil => simp [Segment.tokens, Ascending]
  | cons s rest ih =>
    have hs := Text.byteLength_pos (h s (by simp))
    have hr := ih (pos + Text.byteLength s.chars) fun r hr => h r (by simp [hr])
    rw [Segment.joined_cons, Text.byteLength_append, ← Nat.add_assoc, Segment.tokens]
    split
    · exact ⟨Nat.le_refl _, by simpa using hs, hr⟩
    · exact hr.weaken (by omega)

/-- Behind the last token is what was skipped at the end. -/
theorem lastStop_tokens (pos : Nat) (segments : List Segment) :
    ∃ a b, segments = a ++ b ∧ (∀ s ∈ b, s.token = none) ∧
      lastStop pos (Segment.tokens pos segments) = pos + Text.byteLength (Segment.joined a) := by
  induction segments using List.reverseRecOn with
  | nil => exact ⟨[], [], rfl, by simp, rfl⟩
  | append_singleton segments s ih =>
    obtain ⟨a, b, rfl, hb, hl⟩ := ih
    rw [Segment.tokens_append]
    cases hs : s.token with
    | none =>
      refine ⟨a, b ++ [s], by simp, ?_, ?_⟩
      · intro r hr
        rcases List.mem_append.mp hr with hr | hr
        · exact hb r hr
        · exact List.mem_singleton.mp hr ▸ hs
      · simpa [Segment.tokens, hs] using hl
    | some token =>
      refine ⟨a ++ b ++ [s], [], by simp, by simp, ?_⟩
      simp [Segment.tokens, hs, lastStop, Nat.add_assoc]

theorem ascending_lex (source : String) : Ascending 0 source.utf8ByteSize (lex source) := by
  have hs : ∀ s ∈ segments .content source.toList, s.chars ≠ [] := chars_ne_nil
  have h := ascending_tokens 0 hs
  rw [joined_segments, Text.byteLength_toList, Nat.zero_add] at h
  rw [lex, lexFrom_eq]
  exact h

/-- Behind the last token of a source are only blanks. -/
theorem lastStop_lex (source : String) :
    ∃ read blanks, source.toList = read ++ blanks ∧ (∀ c ∈ blanks, isTagBlank c = true) ∧
      lastStop 0 (lex source) = Text.byteLength read := by
  obtain ⟨a, b, hab, hb, hl⟩ := lastStop_tokens 0 (segments .content source.toList)
  refine ⟨Segment.joined a, Segment.joined b, ?_, ?_, ?_⟩
  · rw [← Segment.joined_append, ← hab, joined_segments]
  · intro c hc
    obtain ⟨s, hs, hcs⟩ := List.mem_flatMap.mp hc
    have hmem : s ∈ segments .content source.toList := hab ▸ List.mem_append_right _ hs
    obtain ⟨-, d, hd, hsd⟩ := skipped_segment s hmem (hb s hs)
    rw [hsd, List.mem_singleton] at hcs
    exact hcs ▸ hd
  · rw [lex, lexFrom_eq, hl, Nat.zero_add]

/-- Blanks stand behind the last token of the source. -/
def EndsInBlanks (source : String) : Prop :=
  ∃ read blanks, source.toList = read ++ blanks ∧ blanks ≠ [] ∧
    (∀ c ∈ blanks, isTagBlank c = true) ∧ lastStop 0 (lex source) = Text.byteLength read

theorem endsInBlanks_iff (source : String) :
    EndsInBlanks source ↔ lastStop 0 (lex source) < source.utf8ByteSize := by
  constructor
  · rintro ⟨read, blanks, hs, hne, -, hl⟩
    have hpos := Text.byteLength_pos hne
    rw [hl, ← Text.byteLength_toList, hs, Text.byteLength_append]
    omega
  · intro h
    obtain ⟨read, blanks, hs, hb, hl⟩ := lastStop_lex source
    refine ⟨read, blanks, hs, ?_, hb, hl⟩
    rintro rfl
    rw [hl, ← Text.byteLength_toList, hs, List.append_nil] at h
    exact Nat.lt_irrefl _ h

end Stencil.Token
