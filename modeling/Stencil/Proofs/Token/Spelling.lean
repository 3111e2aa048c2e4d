import Stencil.Proofs.Text.Slices
import Stencil.Proofs.Token.Concatenation

/-!
# How tokens are spelled

Each valid token covers the characters that spell it, and goes no further than the first place where
it can end. Between tags one token begins where the one before it ends, and inside a tag only blanks
stand between two of them, so no character of a source is lost.
-/
namespace Stencil.Token

/-- The characters of a token in the source. -/
def Spells (cs : List Char) : Token → Prop
  | text content | name content => cs = content.toList
  | comment body => cs = ['<', '!', '-', '-'] ++ body.toList ++ ['-', '-', '>']
  | tagOpen => cs = ['<']
  | closeTagOpen => cs = ['<', '/']
  | tagClose => cs = ['>']
  | selfClose => cs = ['/', '>']
  | equals => cs = ['=']
  | literal value =>
    ∃ quote, (quote = '"' ∨ quote = '\x27') ∧ quote ∉ value.toList ∧
      cs = quote :: (value.toList ++ [quote])
  | expression source => ∃ body, cs = '{' :: (body ++ ['}']) ∧ source.toList = Text.trimChars body
  | invalid => True

/-! ## Pieces -/

theorem commentBody_eq {cs body : List Char} (h : commentBody cs = some body) :
    ∃ rest, cs = body ++ '-' :: '-' :: '>' :: rest := by
  fun_induction commentBody cs generalizing body with
  | case1 rest =>
    cases h
    exact ⟨rest, rfl⟩
  | case2 c cs hmark ih =>
    obtain ⟨body, hbody, rfl⟩ := Option.map_eq_some_iff.mp h
    obtain ⟨rest, rfl⟩ := ih hbody
    exact ⟨rest, rfl⟩
  | case3 => cases h

theorem expressionBody_eq {depth : Nat} {cs body : List Char}
    (h : expressionBody depth cs = some body) : ∃ rest, cs = body ++ '}' :: rest := by
  fun_induction expressionBody depth cs generalizing body with
  | case1 => cases h
  | case2 depth cs ih | case4 cs hne depth ih | case5 depth c cs hopen hclose ih =>
    obtain ⟨body, hbody, rfl⟩ := Option.map_eq_some_iff.mp h
    obtain ⟨rest, rfl⟩ := ih hbody
    exact ⟨rest, rfl⟩
  | case3 cs =>
    cases h
    exact ⟨cs, rfl⟩

/-- Up to the first character of a kind, when there is one. -/
theorem eq_takeWhile_append {q : Char} {cs : List Char}
    (h : (cs.takeWhile (· ≠ q)).length < cs.length) :
    ∃ rest, cs = cs.takeWhile (· ≠ q) ++ q :: rest := by
  induction cs with
  | nil => simp at h
  | cons c cs ih =>
    by_cases hc : c = q
    · exact ⟨cs, by simp [hc]⟩
    · have htail : (cs.takeWhile (· ≠ q)).length < cs.length := by
        simpa [List.takeWhile_cons, hc] using h
      obtain ⟨rest, hrest⟩ := ih htail
      refine ⟨rest, ?_⟩
      rw [List.takeWhile_cons, if_pos (by simpa using hc), List.cons_append, ← hrest]

theorem take_takeWhile (p : Char → Bool) (cs : List Char) :
    cs.take (cs.takeWhile p).length = cs.takeWhile p :=
  (List.prefix_iff_eq_take.mp (List.takeWhile_prefix p)).symm

theorem spells_literalPiece {quote : Char} {cs : List Char} {token : Token}
    (hq : quote = '"' ∨ quote = '\x27') (h : (literalPiece quote cs).token = some token) :
    token.Spells (quote :: cs.take (literalPiece quote cs).extra) := by
  by_cases hlt : (cs.takeWhile (· ≠ quote)).length < cs.length
  · have hquote : quote ∉ cs.takeWhile (· ≠ quote) := fun hmem => by
      simpa using List.mem_takeWhile_imp hmem
    obtain ⟨rest, hrest⟩ := eq_takeWhile_append hlt
    simp only [literalPiece, if_pos hlt, Option.some.injEq] at h ⊢
    subst h
    generalize cs.takeWhile (· ≠ quote) = body at hquote hrest ⊢
    subst hrest
    refine ⟨quote, hq, by simpa using hquote, ?_⟩
    rw [List.take_length_add_append]
    simp
  · simp only [literalPiece, if_neg hlt, Option.some.injEq] at h
    subst h
    trivial

theorem spells_expressionPiece {cs : List Char} {token : Token}
    (h : (expressionPiece cs).token = some token) :
    token.Spells ('{' :: cs.take (expressionPiece cs).extra) := by
  cases hb : expressionBody 0 cs with
  | none =>
    simp only [expressionPiece, hb, Option.some.injEq] at h
    subst h
    trivial
  | some body =>
    simp only [expressionPiece, hb, Option.some.injEq] at h ⊢
    subst h
    obtain ⟨rest, rfl⟩ := expressionBody_eq hb
    refine ⟨body, ?_, String.toList_ofList⟩
    rw [List.take_length_add_append]
    simp

theorem spells_contentPiece {c : Char} {cs : List Char} {token : Token}
    (h : (contentPiece c cs).token = some token) :
    token.Spells (c :: cs.take (contentPiece c cs).extra) := by
  by_cases hc : c = '<'
  · subst hc
    revert h
    simp only [contentPiece, if_true]
    split
    · next rest =>
      cases hb : commentBody rest with
      | none =>
        rintro ⟨⟩
        trivial
      | some body =>
        obtain ⟨behind, rfl⟩ := commentBody_eq hb
        rintro ⟨⟩
        have htake : 3 + body.length + 3 = body.length + 3 + 1 + 1 + 1 := by omega
        simp only [htake, List.take_succ_cons, List.take_length_add_append]
        simp [Spells]
    · rintro ⟨⟩
      rfl
    · rintro ⟨⟩
      rfl
  · simp only [contentPiece, if_neg hc, Option.some.injEq] at h ⊢
    subst h
    rw [take_takeWhile]
    simp [Spells]

theorem spells_tagPiece {c : Char} {cs : List Char} {token : Token}
    (h : (tagPiece c cs).token = some token) :
    token.Spells (c :: cs.take (tagPiece c cs).extra) := by
  by_cases hblank : isTagBlank c = true
  · simp [tagPiece, hblank] at h
  simp only [tagPiece, if_neg hblank] at h ⊢
  by_cases hname : isNameStart c = true
  · simp only [if_pos hname, Option.some.injEq] at h ⊢
    subst h
    rw [take_takeWhile]
    simp [Spells]
  simp only [if_neg hname] at h ⊢
  by_cases hequals : c = '='
  · simp only [if_pos hequals, Option.some.injEq] at h ⊢
    subst h hequals
    rfl
  simp only [if_neg hequals] at h ⊢
  by_cases hquote : c = '"' ∨ c = '\x27'
  · simp only [if_pos hquote] at h ⊢
    exact spells_literalPiece hquote h
  simp only [if_neg hquote] at h ⊢
  by_cases hbrace : c = '{'
  · simp only [if_pos hbrace] at h ⊢
    subst hbrace
    exact spells_expressionPiece h
  simp only [if_neg hbrace] at h ⊢
  by_cases hclose : c = '>'
  · simp only [if_pos hclose, Option.some.injEq] at h ⊢
    subst h hclose
    rfl
  simp only [if_neg hclose] at h ⊢
  by_cases hself : c = '/' ∧ cs.head? = some '>'
  · simp only [if_pos hself, Option.some.injEq] at h ⊢
    obtain ⟨rest, rfl⟩ := List.head?_eq_some_iff.mp hself.2
    subst h
    rw [hself.1]
    rfl
  · simp only [if_neg hself, Option.some.injEq] at h
    subst h
    trivial

theorem spells_piece {mode : Mode} {c : Char} {cs : List Char} {token : Token}
    (h : (mode.piece c cs).token = some token) :
    token.Spells (c :: cs.take (mode.piece c cs).extra) := by
  cases mode with
  | content => exact spells_contentPiece h
  | tag => exact spells_tagPiece h

/-! ## Ends -/

/-- Braces that are closed at the last character and not before it. -/
structure Braced (cs : List Char) : Prop where
  /-- In front of its end one is still open. -/
  inside : ∀ front back, cs = front ++ back → front ≠ [] → back ≠ [] →
    front.count '}' < front.count '{'
  closed : cs.count '}' = cs.count '{'

/-- What ends a token does not come any earlier in it. Of a literal its spelling says so. -/
def EndsFirst (cs : List Char) : Token → Prop
  | text content => '<' ∉ content.toList
  | comment body => ¬ ['-', '-', '>'] <:+: body.toList
  | expression _ => Braced cs
  | tagOpen | closeTagOpen | tagClose | selfClose | name _ | equals | literal _ | invalid => True

theorem mark_not_mem_commentBody {cs body : List Char} (h : commentBody cs = some body) :
    ¬ ['-', '-', '>'] <:+: body := by
  fun_induction commentBody cs generalizing body with
  | case1 rest =>
    cases h
    simp
  | case2 c cs hmark ih =>
    obtain ⟨body, hbody, rfl⟩ := Option.map_eq_some_iff.mp h
    obtain ⟨rest, rfl⟩ := commentBody_eq hbody
    rw [List.infix_cons_iff]
    rintro (⟨behind, hbehind⟩ | hlater)
    -- A mark in front would have ended the comment here.
    · obtain ⟨rfl, rfl⟩ := List.cons.inj hbehind
      exact hmark (behind ++ '-' :: '-' :: '>' :: rest) rfl rfl
    · exact ih hbody hlater
  | case3 => cases h

/-- With `depth + 1` braces open, one is open throughout the body of an expression, and one alone
at its end. -/
theorem count_expressionBody {depth : Nat} {cs body : List Char}
    (h : expressionBody depth cs = some body) :
    body.count '}' = body.count '{' + depth ∧
      ∀ front, front <+: body → front.count '}' ≤ front.count '{' + depth := by
  fun_induction expressionBody depth cs generalizing body with
  | case1 => cases h
  | case2 depth cs ih | case4 cs depth _ ih | case5 depth c cs hopen hclose ih =>
    obtain ⟨body, hbody, rfl⟩ := Option.map_eq_some_iff.mp h
    obtain ⟨hwhole, hfront⟩ := ih hbody
    refine ⟨by grind, fun front hprefix => ?_⟩
    rcases List.prefix_cons_iff.mp hprefix with rfl | ⟨front, rfl, hbehind⟩
    · simp
    · have hcount := hfront front hbehind
      grind
  | case3 cs =>
    cases h
    simp

theorem braced_expressionBody {cs body : List Char} (h : expressionBody 0 cs = some body) :
    Braced ('{' :: (body ++ ['}'])) := by
  obtain ⟨hwhole, hfront⟩ := count_expressionBody h
  refine ⟨fun front back heq hne hne' => ?_, by grind⟩
  obtain ⟨c, front, rfl⟩ := List.exists_cons_of_ne_nil hne
  obtain ⟨rfl, htail⟩ := List.cons.inj heq
  -- All but the last brace is the body.
  have hprefix : front <+: body := by
    have hbody : body = front ++ back.dropLast := by
      rw [← List.dropLast_append_of_ne_nil hne', ← List.append_eq, ← htail, List.dropLast_concat]
    exact hbody ▸ List.prefix_append front _
  have hcount := hfront front hprefix
  grind

theorem endsFirst_contentPiece {c : Char} {cs : List Char} {token : Token}
    (h : (contentPiece c cs).token = some token) :
    token.EndsFirst (c :: cs.take (contentPiece c cs).extra) := by
  by_cases hc : c = '<'
  · revert h
    simp only [contentPiece, if_pos hc]
    split
    · next rest =>
      cases hb : commentBody rest with
      | none =>
        rintro ⟨⟩
        trivial
      | some body =>
        rintro ⟨⟩
        simpa [EndsFirst] using mark_not_mem_commentBody hb
    · rintro ⟨⟩
      trivial
    · rintro ⟨⟩
      trivial
  · simp only [contentPiece, if_neg hc, Option.some.injEq] at h
    subst h
    simp only [EndsFirst, String.toList_ofList, List.mem_cons, not_or]
    exact ⟨Ne.symm hc, fun hmem => by simpa using List.mem_takeWhile_imp hmem⟩

theorem endsFirst_expressionPiece {cs : List Char} {token : Token}
    (h : (expressionPiece cs).token = some token) :
    token.EndsFirst ('{' :: cs.take (expressionPiece cs).extra) := by
  cases hb : expressionBody 0 cs with
  | none =>
    simp only [expressionPiece, hb, Option.some.injEq] at h
    subst h
    trivial
  | some body =>
    simp only [expressionPiece, hb, Option.some.injEq] at h ⊢
    subst h
    obtain ⟨rest, rfl⟩ := expressionBody_eq hb
    rw [List.take_length_add_append]
    exact braced_expressionBody hb

theorem endsFirst_piece {mode : Mode} {c : Char} {cs : List Char} {token : Token}
    (h : (mode.piece c cs).token = some token) :
    token.EndsFirst (c :: cs.take (mode.piece c cs).extra) := by
  cases mode with
  | content => exact endsFirst_contentPiece h
  | tag =>
    by_cases hbrace : c = '{'
    · subst hbrace
      have hcond : isTagBlank '{' = false ∧ isNameStart '{' = false := by decide
      have hpiece : tagPiece '{' cs = expressionPiece cs := by simp [tagPiece, hcond]
      simp only [Mode.piece, hpiece] at h ⊢
      exact endsFirst_expressionPiece h
    -- Only the expression has an end of its own.
    · revert h
      simp only [Mode.piece, tagPiece, literalPiece, if_neg hbrace]
      repeat' split
      all_goals rintro ⟨⟩ <;> trivial

/-! ## Joints -/

/-- What may stand between two tokens: nothing between tags, and blanks inside one. -/
def Mode.Between (source : List Char) : Mode → Span → Prop
  | content, s => s.start = s.stop
  | tag, s => s.CoversAll source isTagBlank

/-- Where a token stands. -/
def Mode.Reads : Mode → Token → Prop
  | content, text _ | content, comment _ | content, tagOpen | content, closeTagOpen => True
  | tag, name _ | tag, equals | tag, literal _ | tag, expression _ | tag, tagClose
  | tag, selfClose => True
  | _, invalid => True
  | _, _ => False

/-- Where a token leads to from a mode; invalid input leads nowhere else. -/
def Mode.after (mode : Mode) (t : Token) : Mode :=
  if t = invalid then mode else t.next

/-- A token tells what its span covers. -/
def Faithful (source : List Char) (t : Located Token) : Prop :=
  ∃ cs, cs ≠ [] ∧ t.span.Covers source cs ∧ t.value.Spells cs ∧ t.value.EndsFirst cs

/-- Tokens that account for a source from offset `low` to `high`. -/
def Accounted (source : List Char) (mode : Mode) (low high : Nat) : List (Located Token) → Prop
  | [] => mode.Between source ⟨low, high⟩
  | t :: ts =>
    mode.Between source ⟨low, t.span.start⟩ ∧ mode.Reads t.value ∧ Faithful source t ∧
      Accounted source (mode.after t.value) t.span.stop high ts

theorem Mode.between_self (mode : Mode) (before after : List Char) :
    mode.Between (before ++ after) ⟨Text.byteLength before, Text.byteLength before⟩ := by
  cases mode with
  | content => rfl
  | tag => exact ⟨[], Span.covers_nil before after, by simp⟩

/-- Blanks in front of tokens inside a tag. -/
theorem Accounted.behind {source : List Char} {low mid high : Nat} {ts : List (Located Token)}
    (hb : Span.CoversAll source isTagBlank ⟨low, mid⟩) (h : Accounted source .tag mid high ts) :
    Accounted source .tag low high ts := by
  cases ts with
  | nil => exact hb.append h
  | cons t ts => exact ⟨hb.append h.1, h.2⟩

theorem after_piece {mode : Mode} {c : Char} {cs : List Char} {token : Token}
    (h : (mode.piece c cs).token = some token) :
    mode.Reads token ∧ (mode.piece c cs).mode = mode.after token := by
  revert h
  cases mode with
  | content =>
    simp only [Mode.piece, contentPiece]
    repeat' split
    all_goals
      rintro ⟨⟩
      simp [Mode.Reads, Mode.after, next]
  | tag =>
    simp only [Mode.piece, tagPiece, literalPiece, expressionPiece]
    repeat' split
    all_goals rintro ⟨⟩ <;> simp [Mode.Reads, Mode.after, next]

theorem accounted_lexFrom {mode : Mode} {before cs : List Char} :
    Accounted (before ++ cs) mode (Text.byteLength before) (Text.byteLength (before ++ cs))
      (lexFrom mode (Text.byteLength before) cs) := by
  induction mode, cs using pieces_induction generalizing before with
  | nil mode =>
    rw [lexFrom, List.append_nil]
    simpa [Accounted] using mode.between_self before []
  | cons mode c cs ih =>
    rw [lexFrom_cons]
    have hsplit : before ++ c :: cs = before ++ (c :: cs.take (mode.piece c cs).extra) ++
        cs.drop (mode.piece c cs).extra := by simp
    have hcovers : Span.Covers (before ++ c :: cs) ⟨Text.byteLength before,
        Text.byteLength before + Text.byteLength (c :: cs.take (mode.piece c cs).extra)⟩
        (c :: cs.take (mode.piece c cs).extra) := ⟨before, _, hsplit, rfl⟩
    have hrest := @ih (before ++ (c :: cs.take (mode.piece c cs).extra))
    rw [← hsplit, Text.byteLength_append] at hrest
    cases htoken : (mode.piece c cs).token with
    | none =>
      obtain ⟨rfl, hblank, hextra⟩ := piece_skipped htoken
      have hmode := @mode_of_piece .tag c cs (by simp [htoken])
      rw [htoken] at hmode
      rw [hmode] at hrest ⊢
      refine Accounted.behind ⟨_, hcovers, ?_⟩ hrest
      simpa [hextra] using hblank
    | some token =>
      obtain ⟨hreads, hmode⟩ := after_piece htoken
      rw [hmode] at hrest ⊢
      exact ⟨mode.between_self before (c :: cs), hreads,
        ⟨_, List.cons_ne_nil c _, hcovers, spells_piece htoken, endsFirst_piece htoken⟩, hrest⟩

/-- The tokens of a source account for all of it. -/
theorem accounted_lex (source : String) :
    Accounted source.toList .content 0 source.utf8ByteSize (lex source) := by
  have h := @accounted_lexFrom .content [] source.toList
  rwa [List.nil_append, Text.byteLength_toList] at h

/-- Valid tokens that account for a source from offset `low` to `high`. -/
def Joined (source : List Char) (mode : Mode) (low high : Nat) : List (Located Token) → Prop
  | [] => mode.Between source ⟨low, high⟩
  | t :: ts =>
    mode.Between source ⟨low, t.span.start⟩ ∧
      (∃ cs, t.span.Covers source cs ∧ t.value.Spells cs) ∧
      Joined source t.value.next t.span.stop high ts

theorem Accounted.joined {source : List Char} {mode : Mode} {low high : Nat}
    {ts : List (Located Token)} (h : Accounted source mode low high ts)
    (hv : ∀ t ∈ ts, t.value ≠ .invalid) : Joined source mode low high ts := by
  induction ts generalizing mode low with
  | nil => exact h
  | cons t ts ih =>
    obtain ⟨hbetween, -, ⟨cs, -, hcovers, hspells, -⟩, hrest⟩ := h
    rw [Mode.after, if_neg (hv t List.mem_cons_self)] at hrest
    exact ⟨hbetween, ⟨cs, hcovers, hspells⟩, ih hrest fun u hu => hv u (List.mem_cons_of_mem t hu)⟩

/-- The tokens of a source without invalid input account for all of it. -/
theorem joined_lex {source : String} (hv : ∀ t ∈ lex source, t.value ≠ .invalid) :
    Joined source.toList .content 0 source.utf8ByteSize (lex source) :=
  (accounted_lex source).joined hv

end Stencil.Token
