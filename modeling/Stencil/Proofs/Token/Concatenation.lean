import Mathlib.Data.List.TakeWhile
import Stencil.Proofs.Relocation
import Stencil.Proofs.Token.Segments

/-!
# Texts one behind the other

A piece of a text is found without a look at what stands behind it, except where it could be
longer: a text, a name, and a `<` that could become another mark. So what is lexed without invalid
input and ends between tags is lexed alike in front of another text, unless its last piece is a text
that goes on there.
-/
namespace Stencil.Token

/-! ## Pieces in front of more text -/

/-- What stops within a text stops there. -/
theorem takeWhile_append_of_lt {p : Char → Bool} {cs : List Char}
    (h : (cs.takeWhile p).length < cs.length) (more : List Char) :
    (cs ++ more).takeWhile p = cs.takeWhile p := by
  rw [List.takeWhile_append, if_neg (by omega)]

theorem commentBody_append {cs body : List Char} (h : commentBody cs = some body)
    (more : List Char) :
    commentBody (cs ++ more) = some body ∧ body.length + 3 ≤ cs.length := by
  fun_induction commentBody cs generalizing body with
  | case1 rest =>
    cases h
    simp [commentBody]
  | case2 c cs hmark ih =>
    obtain ⟨body, hbody, rfl⟩ := Option.map_eq_some_iff.mp h
    obtain ⟨hmore, hlength⟩ := ih hbody
    -- The mark is not completed by what follows, since there is room for it in front.
    obtain ⟨d, e, rest, rfl⟩ : ∃ d e rest, cs = d :: e :: rest := by
      match cs, hlength with
      | d :: e :: rest, _ => exact ⟨d, e, rest, rfl⟩
    refine ⟨?_, by simp at hlength ⊢; omega⟩
    rw [List.cons_append, commentBody, hmore]
    · rfl
    · rintro rest' rfl heq
      simp only [List.cons_append, List.cons.injEq] at heq
      exact hmark rest rfl (by rw [heq.1, heq.2.1])
  | case3 => cases h

theorem expressionBody_append {depth : Nat} {cs body : List Char}
    (h : expressionBody depth cs = some body) (more : List Char) :
    expressionBody depth (cs ++ more) = some body ∧ body.length + 1 ≤ cs.length := by
  fun_induction expressionBody depth cs generalizing body with
  | case1 => cases h
  | case2 depth cs ih | case4 cs hne depth ih | case5 depth c cs hopen hclose ih =>
    obtain ⟨body, hbody, rfl⟩ := Option.map_eq_some_iff.mp h
    obtain ⟨hmore, hlength⟩ := ih hbody
    simp_all [expressionBody]
  | case3 cs =>
    cases h
    simp [expressionBody]

theorem literalPiece_append {quote : Char} {cs : List Char}
    (h : (literalPiece quote cs).token ≠ some .invalid) (more : List Char) :
    literalPiece quote (cs ++ more) = literalPiece quote cs ∧
      (literalPiece quote cs).extra ≤ cs.length := by
  by_cases hlt : (cs.takeWhile (· ≠ quote)).length < cs.length
  · have hlt' : (cs.takeWhile (· ≠ quote)).length < (cs ++ more).length := by
      rw [List.length_append]
      omega
    simp only [literalPiece, takeWhile_append_of_lt hlt, if_pos hlt, if_pos hlt']
    exact ⟨trivial, hlt⟩
  · exact absurd (by simp only [literalPiece, if_neg hlt]) h

theorem expressionPiece_append {cs : List Char} (h : (expressionPiece cs).token ≠ some .invalid)
    (more : List Char) :
    expressionPiece (cs ++ more) = expressionPiece cs ∧
      (expressionPiece cs).extra ≤ cs.length := by
  cases hb : expressionBody 0 cs with
  | none => exact absurd (by simp only [expressionPiece, hb]) h
  | some body =>
    obtain ⟨hmore, hlength⟩ := expressionBody_append hb more
    simp only [expressionPiece, hb, hmore]
    exact ⟨trivial, hlength⟩

/-- Inside a tag a piece stays as it is when another one follows it, or when it ends the tag. -/
theorem tagPiece_append {c : Char} {cs : List Char} (hv : (tagPiece c cs).token ≠ some .invalid)
    (hend : cs.length ≤ (tagPiece c cs).extra → (tagPiece c cs).mode = .content)
    (more : List Char) :
    tagPiece c (cs ++ more) = tagPiece c cs ∧ (tagPiece c cs).extra ≤ cs.length := by
  by_cases hblank : isTagBlank c = true
  · simp [tagPiece, hblank]
  simp only [tagPiece, if_neg hblank] at hv hend ⊢
  by_cases hname : isNameStart c = true
  · simp only [if_pos hname] at hend ⊢
    have hlt : (cs.takeWhile isNameChar).length < cs.length := by
      by_contra hge
      exact absurd (hend (Nat.le_of_not_lt hge)) (by simp)
    simp only [takeWhile_append_of_lt hlt]
    exact ⟨trivial, Nat.le_of_lt hlt⟩
  simp only [if_neg hname] at hv ⊢
  by_cases hequals : c = '='
  · simp [hequals]
  simp only [if_neg hequals] at hv ⊢
  by_cases hquote : c = '"' ∨ c = '\x27'
  · simp only [if_pos hquote] at hv ⊢
    exact literalPiece_append hv more
  simp only [if_neg hquote] at hv ⊢
  by_cases hbrace : c = '{'
  · simp only [if_pos hbrace] at hv ⊢
    exact expressionPiece_append hv more
  simp only [if_neg hbrace] at hv ⊢
  by_cases hclose : c = '>'
  · simp [hclose]
  simp only [if_neg hclose] at hv ⊢
  by_cases hself : c = '/' ∧ cs.head? = some '>'
  · obtain ⟨rest, rfl⟩ := List.head?_eq_some_iff.mp hself.2
    simp [hself.1]
  · exact absurd (by rw [if_neg hself]) hv

/-- Behind a `<` either nothing matters, or a comment may begin. -/
theorem contentPiece_mark (d : Char) (rest : List Char) :
    d = '/' ∨ (∃ body, d = '!' ∧ rest = '-' :: '-' :: body) ∨
      contentPiece '<' (d :: rest) = ⟨some .tagOpen, 0, .tag⟩ := by
  simp only [contentPiece, if_true]
  split
  · next heq =>
    obtain ⟨rfl, rfl⟩ := List.cons.inj heq
    exact .inr (.inl ⟨_, rfl, rfl⟩)
  · next heq => exact .inl (List.cons.inj heq).1
  · exact .inr (.inr rfl)

/-- Between tags too, except that behind a `<` there must be no `!`, which could become a comment,
and that no text may go on. -/
theorem contentPiece_append {c : Char} {cs : List Char}
    (hv : (contentPiece c cs).token ≠ some .invalid)
    (hend : cs.length ≤ (contentPiece c cs).extra → (contentPiece c cs).mode = .content)
    (hmark : (contentPiece c cs).token = some .tagOpen → cs.head? ≠ some '!') {more : List Char}
    (htext : c ≠ '<' → cs.length ≤ (contentPiece c cs).extra → ∀ d ∈ more.head?, d = '<') :
    contentPiece c (cs ++ more) = contentPiece c cs ∧
      (contentPiece c cs).extra ≤ cs.length := by
  by_cases hc : c = '<'
  · subst hc
    cases cs with
    | nil => exact absurd (hend (Nat.zero_le _)) (by simp [contentPiece])
    | cons d rest =>
      rcases contentPiece_mark d rest with rfl | ⟨rest, rfl, rfl⟩ | hopen
      · simp [contentPiece]
      · cases hb : commentBody rest with
        | none => exact absurd (by simp [contentPiece, hb]) hv
        | some body =>
          obtain ⟨hmore, hlength⟩ := commentBody_append hb more
          simp [contentPiece, hb, hmore]
          omega
      · rw [hopen] at hmark ⊢
        refine ⟨?_, Nat.zero_le _⟩
        rcases contentPiece_mark d (rest ++ more) with rfl | ⟨body, rfl, -⟩ | hmore
        · simp [contentPiece] at hopen
        · exact absurd rfl (hmark rfl)
        · exact hmore
  · have htake : (cs ++ more).takeWhile (· ≠ '<') = cs.takeWhile (· ≠ '<') := by
      by_cases hlt : (cs.takeWhile (· ≠ '<')).length < cs.length
      · exact takeWhile_append_of_lt hlt more
      · simp only [contentPiece, if_neg hc] at htext
        have hmore := htext hc (Nat.le_of_not_lt hlt)
        have hall : cs.takeWhile (· ≠ '<') = cs :=
          (List.takeWhile_prefix _).eq_of_length_le (Nat.le_of_not_lt hlt)
        rw [List.takeWhile_append, hall, if_pos rfl]
        cases more with
        | nil => simp
        | cons d more => simp [hmore d rfl]
    simp only [contentPiece, if_neg hc, htake]
    exact ⟨trivial, (List.takeWhile_prefix _).length_le⟩

/-! ## Lexing in front of more text -/

/-- Where a token leads to. -/
def next : Token → Mode
  | text _ | comment _ | tagClose | selfClose => .content
  | tagOpen | closeTagOpen | name _ | equals | literal _ | expression _ | invalid => .tag

/-- Where tokens lead to from a mode. -/
def endMode (mode : Mode) (ts : List (Located Token)) : Mode :=
  (ts.getLast?.map (·.value.next)).getD mode

@[simp] theorem endMode_nil (mode : Mode) : endMode mode [] = mode := rfl
@[simp] theorem endMode_cons (mode : Mode) (t : Located Token) (ts : List (Located Token)) :
    endMode mode (t :: ts) = endMode t.value.next ts := by
  cases h : ts.getLast? <;> simp [endMode, h, List.getLast?_cons]
@[simp] theorem endMode_append (mode : Mode) (ts us : List (Located Token)) :
    endMode mode (ts ++ us) = endMode (endMode mode ts) us := by
  cases h : us.getLast? <;> simp [endMode, h, List.getLast?_append]

def isText : Token → Bool
  | text _ => true
  | comment _ | tagOpen | closeTagOpen | tagClose | selfClose | name _ | equals | literal _
  | expression _ | invalid => false

/-- Induction over a text, piece by piece. -/
@[elab_as_elim]
theorem pieces_induction {P : Mode → List Char → Prop} (nil : ∀ mode, P mode [])
    (cons : ∀ mode c cs, P (mode.piece c cs).mode (cs.drop (mode.piece c cs).extra) →
      P mode (c :: cs))
    (mode : Mode) (cs : List Char) : P mode cs :=
  segments.induct P nil cons mode cs

theorem lexFrom_cons (mode : Mode) (pos : Nat) (c : Char) (cs : List Char) :
    let piece := mode.piece c cs
    let stop := pos + Text.byteLength (c :: cs.take piece.extra)
    lexFrom mode pos (c :: cs) =
      piece.token.toList.map (⟨·, ⟨pos, stop⟩⟩) ++
        lexFrom piece.mode stop (cs.drop piece.extra) := by
  rw [lexFrom]
  dsimp only
  cases (mode.piece c cs).token <;> rfl

/-- A text that starts later has its tokens there. -/
theorem lexFrom_shift (mode : Mode) (pos k : Nat) (cs : List Char) :
    lexFrom mode (pos + k) cs = (lexFrom mode pos cs).map (·.relocate (· + k)) := by
  induction mode, cs using pieces_induction generalizing pos with
  | nil mode => simp [lexFrom]
  | cons mode c cs ih =>
    have hstop := Nat.add_right_comm pos k
      (Text.byteLength (c :: cs.take (mode.piece c cs).extra))
    rw [lexFrom_cons, lexFrom_cons, hstop, ih]
    simp [Span.relocate]

/-- A piece leads to where its token does. -/
theorem mode_of_piece {mode : Mode} {c : Char} {cs : List Char}
    (h : (mode.piece c cs).token ≠ some .invalid) :
    (mode.piece c cs).mode = ((mode.piece c cs).token.map next).getD mode := by
  revert h
  cases mode with
  | content =>
    simp only [Mode.piece, contentPiece]
    repeat' split
    all_goals simp [next]
  | tag =>
    simp only [Mode.piece, tagPiece, literalPiece, expressionPiece]
    repeat' split
    all_goals simp [next]

theorem piece_append {mode : Mode} {c : Char} {cs : List Char}
    (hv : (mode.piece c cs).token ≠ some .invalid)
    (hend : cs.length ≤ (mode.piece c cs).extra → (mode.piece c cs).mode = .content)
    (hmark : mode = .content → (mode.piece c cs).token = some .tagOpen → cs.head? ≠ some '!')
    {more : List Char}
    (htext : ∀ t ∈ (mode.piece c cs).token, t.isText = true →
      cs.length ≤ (mode.piece c cs).extra → ∀ d ∈ more.head?, d = '<') :
    mode.piece c (cs ++ more) = mode.piece c cs ∧ (mode.piece c cs).extra ≤ cs.length := by
  cases mode with
  | content =>
    refine contentPiece_append hv hend (hmark rfl) fun hc hlast => ?_
    exact htext (.text _) (by simp only [Mode.piece, contentPiece, if_neg hc]; rfl) rfl hlast
  | tag => exact tagPiece_append hv hend more

/-- Behind a `<` that stands for itself, a `!` is invalid. -/
theorem invalid_of_mark {pos : Nat} {c : Char} {cs : List Char}
    (h : (contentPiece c cs).token = some .tagOpen) (hbang : cs.head? = some '!') :
    ∃ t ∈ lexFrom .content pos (c :: cs), t.value = .invalid := by
  obtain ⟨rest, rfl⟩ := List.head?_eq_some_iff.mp hbang
  by_cases hc : c = '<'
  · subst hc
    rcases contentPiece_mark '!' rest with hslash | ⟨body, -, rfl⟩ | hopen
    · exact absurd hslash (by decide)
    · cases hb : commentBody body <;> simp [contentPiece, hb] at h
    · have hpiece : tagPiece '!' rest = ⟨some .invalid, 0, .tag⟩ := by
        have hcond : isTagBlank '!' = false ∧ isNameStart '!' = false := by decide
        simp [tagPiece, hcond]
      rw [lexFrom_cons]
      simp only [Mode.piece, hopen, List.drop_zero]
      rw [lexFrom_cons]
      simp [Mode.piece, hpiece]
  · simp [contentPiece, hc] at h

/-- Tokens that end between tags, in front of a text that does not go on with the last one. -/
structure EndsBefore (more : List Char) (mode : Mode) (ts : List (Located Token)) : Prop where
  valid : ∀ t ∈ ts, t.value ≠ .invalid
  between : endMode mode ts = .content
  stops : ∀ t ∈ ts.getLast?, t.value.isText = true → ∀ d ∈ more.head?, d = '<'

theorem EndsBefore.behind {more : List Char} {mode : Mode} {ts us : List (Located Token)}
    (h : EndsBefore more mode (ts ++ us)) : EndsBefore more (endMode mode ts) us := by
  refine ⟨fun t ht => h.valid t (List.mem_append_right ts ht), ?_, fun t ht => ?_⟩
  · rw [← endMode_append]
    exact h.between
  · exact h.stops t (by rw [Option.mem_def, List.getLast?_append, ht, Option.some_or])

/-- The first piece of such a text is the same in front of more, and what is behind it ends there
too. -/
theorem EndsBefore.piece {more : List Char} {mode : Mode} {pos : Nat} {c : Char} {cs : List Char}
    (h : EndsBefore more mode (lexFrom mode pos (c :: cs))) :
    let piece := mode.piece c cs
    let stop := pos + Text.byteLength (c :: cs.take piece.extra)
    mode.piece c (cs ++ more) = piece ∧ piece.extra ≤ cs.length ∧
      EndsBefore more piece.mode (lexFrom piece.mode stop (cs.drop piece.extra)) := by
  intro piece stop
  have hmark : mode = .content → piece.token = some .tagOpen → cs.head? ≠ some '!' := by
    rintro rfl hopen hbang
    obtain ⟨t, ht, hinvalid⟩ := invalid_of_mark hopen hbang
    exact h.valid t ht hinvalid
  rw [lexFrom_cons] at h
  have hvalid : piece.token ≠ some .invalid := by
    intro hinvalid
    exact h.valid ⟨.invalid, ⟨pos, stop⟩⟩ (by simp [piece, stop, hinvalid]) rfl
  have hmode : endMode mode (piece.token.toList.map (⟨·, ⟨pos, stop⟩⟩)) = piece.mode := by
    rw [mode_of_piece hvalid]
    cases piece.token <;> rfl
  have hbehind : EndsBefore more piece.mode (lexFrom piece.mode stop (cs.drop piece.extra)) :=
    hmode ▸ h.behind
  -- Behind the last piece there are no tokens, so it decides how the text ends.
  have hlast (hle : cs.length ≤ piece.extra) :
      lexFrom piece.mode stop (cs.drop piece.extra) = [] := by
    rw [List.drop_eq_nil_iff.mpr hle, lexFrom]
  obtain ⟨hsame, hextra⟩ : mode.piece c (cs ++ more) = piece ∧ piece.extra ≤ cs.length := by
    refine piece_append hvalid (fun hle => ?_) hmark fun t ht hword hle => ?_
    · have hbetween := hbehind.between
      rwa [hlast hle] at hbetween
    · refine h.stops ⟨t, ⟨pos, stop⟩⟩ ?_ hword
      have htoken : piece.token = some t := ht
      change (piece.token.toList.map (Located.mk · ⟨pos, stop⟩) ++
        lexFrom piece.mode stop (cs.drop piece.extra)).getLast? = _
      rw [hlast hle, htoken]
      rfl
  exact ⟨hsame, hextra, hbehind⟩

theorem lexFrom_append {mode : Mode} {pos : Nat} {cs more : List Char}
    (h : EndsBefore more mode (lexFrom mode pos cs)) :
    lexFrom mode pos (cs ++ more) =
      lexFrom mode pos cs ++ lexFrom .content (pos + Text.byteLength cs) more := by
  induction mode, cs using pieces_induction generalizing pos with
  | nil mode =>
    have hmode := h.between
    simp only [lexFrom, endMode_nil] at hmode
    simp [lexFrom, hmode]
  | cons mode c cs ih =>
    obtain ⟨hsame, hextra, hbehind⟩ := h.piece
    have hstop : pos + Text.byteLength (c :: cs.take (mode.piece c cs).extra) +
        Text.byteLength (cs.drop (mode.piece c cs).extra) = pos + Text.byteLength (c :: cs) := by
      rw [Nat.add_assoc, ← Text.byteLength_append, List.cons_append, List.take_append_drop]
    rw [List.cons_append, lexFrom_cons, lexFrom_cons mode pos c cs, hsame,
      List.take_append_of_le_length hextra, List.drop_append_of_le_length hextra, ih hbehind,
      hstop, List.append_assoc]

/-- A source in front of another one: its tokens, and then those of the other one, as many bytes
later. -/
theorem lex_append {a b : String} (h : EndsBefore b.toList .content (lex a)) :
    lex (a ++ b) = lex a ++ (lex b).map (·.relocate (· + a.utf8ByteSize)) := by
  have happend := lexFrom_append h
  rwa [lexFrom_shift, Text.byteLength_toList, ← String.toList_append] at happend

end Stencil.Token
