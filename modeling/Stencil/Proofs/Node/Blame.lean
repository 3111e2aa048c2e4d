import Stencil.Proofs.Node.Reading
import Stencil.Source

/-!
# Whom a syntax error blames

What a reader accepts is the beginning of a derivation in which no finished element is faulty. A
derivation that has a faulty element is read up to the end of one and refused there for what is
wrong with it. So a token is refused as unexpected only where no derivation goes on with it, and any
other refusal is that of the first faulty element.
-/
namespace Stencil

open Phrase (tokensAll WellFormedAll)

/-! ## Faults -/

namespace TagPhrase

/-- The first attribute name, in source order, that an earlier attribute has too. -/
def Repeats (tag : TagPhrase) (name : String) : Prop :=
  ∃ front back, tag.attributes.map (·.name.value) = front ++ name :: back ∧ front.Nodup ∧
    name ∈ front

/-- What is wrong with an element of this start tag: the closing name first. -/
inductive Faulty (tag : TagPhrase) : Option String → SyntaxError.Cause → Prop where
  | mismatched {closing : String} (h : closing ≠ tag.name.value) :
    Faulty tag (some closing) (.mismatchedClosing closing tag.name.value)
  | duplicate {closing : Option String} {name : String}
      (hclosing : ∀ c ∈ closing, c = tag.name.value) (h : tag.Repeats name) :
    Faulty tag closing (.duplicateAttribute name tag.name.value)

end TagPhrase

/-- What is wrong with an element itself, whatever its children are. -/
def Phrase.Faulty : Phrase → SyntaxError.Cause → Prop
  | text _, _ | comment _, _ => False
  | selfClosing tag _, cause => tag.Faulty none cause
  | enclosing tag _ _ _ name _, cause => tag.Faulty (some name.value) cause

theorem StartTag.duplicate?_eq_some {tag : StartTag} {name : String}
    (h : tag.duplicate? = some name) :
    ∃ front back, tag.attributes.map (·.name.value) = front ++ name :: back ∧ front.Nodup ∧
      name ∈ front := by
  have hgo (seen names : List String) (h : duplicate?.go seen names = some name) :
      ∃ front back, names = front ++ name :: back ∧ front.Nodup ∧ (∀ n ∈ front, n ∉ seen) ∧
        (name ∈ seen ∨ name ∈ front) := by
    induction names generalizing seen with
    | nil => cases h
    | cons n names ih =>
      rw [duplicate?.go] at h
      split at h
      · next hn =>
        cases h
        exact ⟨[], names, rfl, .nil, by simp, .inl hn⟩
      · next hn =>
        obtain ⟨front, back, rfl, hnodup, hfresh, hname⟩ := ih _ h
        refine ⟨n :: front, back, rfl, ?_, ?_, ?_⟩ <;> grind
  obtain ⟨front, back, heq, hnodup, -, hname⟩ := hgo [] _ h
  exact ⟨front, back, heq, hnodup, by simpa using hname⟩

theorem TagPhrase.repeats_of_duplicate {tag : TagPhrase} {name : String}
    (h : tag.startTag.duplicate? = some name) : tag.Repeats name := by
  have hnames := StartTag.duplicate?_eq_some h
  rw [map_name_startTag] at hnames
  exact hnames

theorem TagPhrase.Repeats.not_distinct {tag : TagPhrase} {name : String} (h : tag.Repeats name) :
    ¬ tag.Distinct := by
  obtain ⟨front, back, heq, -, hname⟩ := h
  rw [Distinct, heq, List.nodup_append]
  rintro ⟨-, -, hdisjoint⟩
  exact hdisjoint name hname name List.mem_cons_self rfl

theorem Phrase.Faulty.not_wellFormed {p : Phrase} {cause : SyntaxError.Cause}
    (h : p.Faulty cause) : ¬ p.WellFormed := by
  cases p with
  | text | comment => exact False.elim h
  | selfClosing tag close =>
    cases h with
    | duplicate _ h => exact h.not_distinct
  | enclosing tag enter children leave name close =>
    rintro ⟨hname, hdistinct, -⟩
    cases h with
    | mismatched h => exact h hname
    | duplicate _ h => exact h.not_distinct hdistinct

/-- A fault begins with its `<`. -/
theorem Phrase.Faulty.opens {p : Phrase} {cause : SyntaxError.Cause} (h : p.Faulty cause) :
    ∃ span ts, p.tokens = ⟨.tagOpen, span⟩ :: ts := by
  cases p with
  | text | comment => exact False.elim h
  | selfClosing | enclosing => exact ⟨_, _, rfl⟩

/-! ## Messages -/

/-- A text that begins with another word. -/
theorem Text.not_prefix_append {s t : String} (h : ¬ s.toList <+: t.toList)
    (hl : s.toList.length ≤ t.toList.length) (rest : String) :
    ¬ s.toList <+: (t ++ rest).toList := by
  rw [String.toList_append]
  exact fun hs => h (List.prefix_of_prefix_length_le hs (List.prefix_append _ _) hl)

theorem TagPhrase.Faulty.message {tag : TagPhrase} {closing : Option String}
    {cause : SyntaxError.Cause} (h : tag.Faulty closing cause) :
    ¬ "Unexpected".toList <+: cause.message.toList := by
  cases h with
  | @mismatched closing _ =>
    have hmessage : (SyntaxError.Cause.mismatchedClosing closing tag.name.value).message =
        "closing tag </" ++ (closing ++ ("> does not match <" ++ (tag.name.value ++ ">"))) := by
      simp only [← String.append_assoc]
      rfl
    rw [hmessage]
    exact Text.not_prefix_append (by decide +kernel) (by decide +kernel) _
  | @duplicate _ name _ _ =>
    have hmessage : (SyntaxError.Cause.duplicateAttribute name tag.name.value).message =
        "duplicate attribute '" ++ (name ++ ("' on <" ++ (tag.name.value ++ ">"))) := by
      simp only [← String.append_assoc]
      rfl
    rw [hmessage]
    exact Text.not_prefix_append (by decide +kernel) (by decide +kernel) _

theorem Phrase.Faulty.message {p : Phrase} {cause : SyntaxError.Cause} (h : p.Faulty cause) :
    ¬ "Unexpected".toList <+: cause.message.toList := by
  cases p with
  | text | comment => exact False.elim h
  | selfClosing | enclosing => exact TagPhrase.Faulty.message h

theorem SyntaxError.Cause.message_unexpected (found : Option Token) (expected : List String) :
    "Unexpected".toList <+: (unexpected found expected).message.toList := by
  cases found with
  | none =>
    change "Unexpected".toList <+: "Unexpected end of input".toList
    decide +kernel
  | some t =>
    change "Unexpected".toList <+: ("Unexpected " ++ SyntaxError.found t).toList
    have hword : "Unexpected".toList <+: "Unexpected ".toList := by decide +kernel
    rw [String.toList_append]
    exact hword.trans (List.prefix_append _ _)

/-! ## Beginnings of derivations -/

/-- Tokens that some derivation begins with, when closing names and repeated attributes are left
unchecked. -/
def Viable (u : List (Located Token)) : Prop :=
  ∃ ps rest, tokensAll ps = u ++ rest

/-- No element that is finished within these tokens is faulty. -/
def Faultless (u : List (Located Token)) : Prop :=
  ∀ (p : Phrase) (cause : SyntaxError.Cause), p.tokens <:+: u → ¬ p.Faulty cause

theorem Viable.of_append {u v : List (Located Token)} (h : Viable (u ++ v)) : Viable u := by
  obtain ⟨ps, rest, hps⟩ := h
  exact ⟨ps, v ++ rest, by rw [hps, List.append_assoc]⟩

namespace Node

/-- Phrases can follow where elements are open, which are then closed. -/
theorem Nested.viable {stack : List Frame} {nodes : List Node} {read : List (Located Token)}
    (h : Nested stack nodes read) (qs : List Phrase) : Viable (read ++ tokensAll qs) := by
  induction h generalizing qs with
  | @top ps => exact ⟨ps ++ qs, [], by simp⟩
  | @inside stack before read ps _ tag enter _ ih =>
    have hclosed := ih [.enclosing tag enter (ps ++ qs) default tag.name default]
    refine Viable.of_append
      (v := [⟨.closeTagOpen, default⟩, Token.ofName tag.name, ⟨.tagClose, default⟩]) ?_
    simpa [Phrase.tokensAll, Phrase.tokens] using hclosed

/-- A start tag can follow, which then closes itself. -/
theorem Nested.viable_tag {stack : List Frame} {nodes : List Node} {read : List (Located Token)}
    (h : Nested stack nodes read) (tag : TagPhrase) : Viable (read ++ tag.tokens) := by
  have hclosed := h.viable [.selfClosing tag default]
  refine Viable.of_append (v := [⟨.selfClose, default⟩]) ?_
  simpa [Phrase.tokensAll, Phrase.tokens] using hclosed

/-- Where an element is open a closing tag can follow. -/
theorem Nested.viable_leave {stack : List Frame} {nodes : List Node} {read : List (Located Token)}
    (h : Nested stack nodes read) (hs : stack ≠ []) (leave : Span) (name : Located String) :
    Viable (read ++ [⟨.closeTagOpen, leave⟩, Token.ofName name]) := by
  cases h with
  | top => exact absurd rfl hs
  | @inside _ _ front ps hr tag enter _ =>
    have hclosed := hr.viable [.enclosing tag enter ps leave name default]
    refine Viable.of_append (v := [⟨.tagClose, default⟩]) ?_
    simpa [Phrase.tokensAll, Phrase.tokens] using hclosed

namespace Reader

/-- Behind `</` some element is open. -/
def LeavesOpen (r : Reader) : Prop :=
  match r.phase with
  | .closingName | .closingEnd _ => r.stack ≠ []
  | .content | .tagName _ | .attributes .. | .value .. => True

theorem LeavesOpen.moves {r r' : Reader} {t : Located Token} (h : r.LeavesOpen)
    (hm : Moves r t r') : r'.LeavesOpen := by
  cases hm with
  | leaves hs => exact hs
  | closingName => exact h
  | _ => trivial

theorem LeavesOpen.run {r r' : Reader} {ts : List (Located Token)} (h : r.LeavesOpen)
    (hr : r.run ts = .ok r') : r'.LeavesOpen :=
  @run_invariant (fun r _ => r.LeavesOpen) LeavesOpen.moves r r' [] ts h hr

/-- What has been read begins a derivation. -/
theorem Reads.viable {r : Reader} {read : List (Located Token)} (h : r.Reads read)
    (hs : r.LeavesOpen) : Viable read := by
  cases h with
  | content hn => simpa [Phrase.tokensAll] using hn.viable []
  | tagName hn opening =>
    refine Viable.of_append (v := [Token.ofName ⟨"a", default⟩]) ?_
    simpa [TagPhrase.tokens] using hn.viable_tag ⟨opening, ⟨"a", default⟩, []⟩
  | attributes hn tag => exact hn.viable_tag tag
  | bareName hn tag name =>
    simpa [AttributePhrase.tokens] using hn.viable_tag (tag.concat (.bare name))
  | value hn tag name equals =>
    refine Viable.of_append (v := [⟨.literal "", default⟩]) ?_
    simpa [AttributePhrase.tokens, ValuePhrase.token] using
      hn.viable_tag (tag.concat (.valued name equals (.literal ⟨"", default⟩)))
  | closingName hn leave =>
    refine Viable.of_append (v := [Token.ofName ⟨"a", default⟩]) ?_
    simpa using hn.viable_leave hs leave ⟨"a", default⟩
  | closingEnd hn leave name => exact hn.viable_leave hs leave name

/-! ## Reading a faulty derivation -/

theorem finish_faulty {span : Span} {phrase : TagPhrase} {closing : Option String}
    {children : List Node} {e : SyntaxError}
    (h : finish span phrase.startTag closing children = .error e) :
    phrase.Faulty closing e.cause ∧ e.span = span := by
  rcases finish_error h with ⟨name, hname, hne, rfl⟩ | ⟨hclosing, name, hd, rfl⟩
  · cases Option.mem_def.mp hname
    exact ⟨.mismatched hne, rfl⟩
  · exact ⟨.duplicate hclosing (TagPhrase.repeats_of_duplicate hd), rfl⟩

mutual
/-- A phrase with a faulty element is not read to its end. -/
theorem run_faulty (stack : List Frame) (nodes : List Node) {p : Phrase} (h : ¬ p.WellFormed)
    (ts : List (Located Token)) :
    ∃ e, run ⟨stack, nodes, .content⟩ (p.tokens ++ ts) = .error e ∧
      ∃ (tag : TagPhrase) (closing : Option String), tag.Faulty closing e.cause := by
  cases p with
  | text | comment => exact absurd trivial h
  | selfClosing phrase close =>
    rw [run_selfClosing]
    cases hf : finish (Phrase.selfClosing phrase close).span phrase.startTag none [] with
    | ok n => exact absurd (phrase.distinct_iff.mpr (finish_ok hf).2.1) h
    | error e => exact ⟨e, rfl, phrase, none, (finish_faulty hf).1⟩
  | enclosing phrase enter children leave name close =>
    rw [run_enclosing]
    by_cases hc : WellFormedAll children
    · rw [run_phrases _ _ hc, run_leave]
      cases hf : finish ⟨phrase.opening.start, close.stop⟩ phrase.startTag (some name.value)
          ([] ++ Phrase.treeAll children) with
      | ok n =>
        obtain ⟨hname, hd, -⟩ := finish_ok hf
        exact absurd ⟨hname _ rfl, phrase.distinct_iff.mpr hd, hc⟩ h
      | error e => exact ⟨e, rfl, phrase, some name.value, (finish_faulty hf).1⟩
    · exact run_faultyAll _ _ hc _

theorem run_faultyAll (stack : List Frame) (nodes : List Node) {ps : List Phrase}
    (h : ¬ WellFormedAll ps) (ts : List (Located Token)) :
    ∃ e, run ⟨stack, nodes, .content⟩ (tokensAll ps ++ ts) = .error e ∧
      ∃ (tag : TagPhrase) (closing : Option String), tag.Faulty closing e.cause := by
  cases ps with
  | nil => exact absurd trivial h
  | cons p ps =>
    rw [tokensAll, List.append_assoc]
    by_cases hp : p.WellFormed
    · rw [run_phrase _ _ hp]
      exact run_faultyAll _ _ (fun hps => h ⟨hp, hps⟩) ts
    · exact run_faulty _ _ hp _
end

/-! ## Refusals -/

/-- A `<` stands between nodes. -/
theorem content_of_run {r r' : Reader} {span : Span} {ts : List (Located Token)}
    (h : r.run (⟨.tagOpen, span⟩ :: ts) = .ok r') : r.phase = .content := by
  rcases step_cases r ⟨.tagOpen, span⟩ with ⟨s, -, hm⟩ | ⟨e, he, -⟩
  · cases hm
    rfl
  · cases (run_of_step_error he ts).symm.trans h

theorem faultless_of_run {u : List (Located Token)} {r : Reader} (h : start.run u = .ok r) :
    Faultless u := by
  rintro p cause ⟨front, back, rfl⟩ hf
  rw [List.append_assoc, run_append] at h
  cases hfront : start.run front with
  | error e =>
    rw [hfront] at h
    cases h
  | ok s =>
    rw [hfront] at h
    replace h : s.run (p.tokens ++ back) = .ok r := h
    obtain ⟨span, ts, hopens⟩ := hf.opens
    have hphase : s.phase = .content := by
      rw [hopens, List.cons_append] at h
      exact content_of_run h
    obtain ⟨stack, nodes, phase⟩ := s
    cases hphase
    obtain ⟨e, he, -⟩ := run_faulty stack nodes hf.not_wellFormed back
    cases he.symm.trans h

/-- A derivation is read to its end, or refused for a faulty element. -/
theorem run_tokensAll (ps : List Phrase) :
    (∃ r, start.run (tokensAll ps) = .ok r ∧ r.Finished) ∨
      ∃ e, start.run (tokensAll ps) = .error e ∧
        ∃ (tag : TagPhrase) (closing : Option String), tag.Faulty closing e.cause := by
  by_cases hw : WellFormedAll ps
  · exact .inl ⟨_, run_derivation ⟨rfl, hw⟩, rfl, rfl⟩
  · have h := run_faultyAll [] [] hw []
    rw [List.append_nil] at h
    exact .inr h

/-- No derivation goes on with a token that is refused as unexpected. -/
theorem not_viable_of_unexpected {u : List (Located Token)} {t : Located Token} {r : Reader}
    {found : Option Token} {expected : List String} {span : Span} (hu : start.run u = .ok r)
    (ht : r.step t = .error ⟨span, .unexpected found expected⟩) : ¬ Viable (u ++ [t]) := by
  rintro ⟨ps, rest, hps⟩
  have hrun : start.run (tokensAll ps) = .error ⟨span, .unexpected found expected⟩ := by
    rw [hps, List.append_assoc, run_append, hu]
    exact run_of_step_error ht rest
  rcases run_tokensAll ps with ⟨s, hs, -⟩ | ⟨e, he, tag, closing, hf⟩
  · cases hs.symm.trans hrun
  · cases he.symm.trans hrun
    cases hf

/-- No derivation ends where a reader is not finished. -/
theorem not_derivation_of_unfinished {u : List (Located Token)} {r : Reader}
    (hu : start.run u = .ok r) (hr : ¬ r.Finished) (ps : List Phrase) : tokensAll ps ≠ u := by
  rintro rfl
  rcases run_tokensAll ps with ⟨s, hs, hfinished⟩ | ⟨e, he, -⟩
  · cases hs.symm.trans hu
    exact hr hfinished
  · cases he.symm.trans hu

/-- A token is refused as unexpected, or it finishes a faulty element. -/
theorem Refuses.blames {r : Reader} {t : Located Token} {e : SyntaxError}
    {read : List (Located Token)} (h : Refuses r t e) (hr : r.Reads read) :
    e = ⟨t.span, .unexpected (some t.value) r.expected⟩ ∨
      ∃ (before : List (Located Token)) (p : Phrase), read ++ [t] = before ++ p.tokens ∧
        p.Faulty e.cause ∧ e.span = p.span ∧ Viable (before ++ p.tokens) := by
  cases h with
  | unexpected => exact .inl rfl
  | @closesItself _ _ _ _ _ span e hf =>
    obtain ⟨front, tag, hn, rfl, rfl, htag⟩ := hr.of_attributes
    rw [htag] at hf
    obtain ⟨hfaulty, hspan⟩ := finish_faulty hf
    refine .inr ⟨front, .selfClosing tag span, by simp [Phrase.tokens], hfaulty, ?_, ?_⟩
    · rw [hspan, Phrase.span_selfClosing]
    · simpa [Phrase.tokensAll] using hn.viable [.selfClosing tag span]
  | @closes _ _ _ name span e hf =>
    cases hr with
    | @closingEnd _ _ read hn leave =>
      cases hn with
      | @inside _ _ front ps hn tag enter _ =>
        obtain ⟨hfaulty, hspan⟩ := finish_faulty hf
        refine .inr ⟨front, .enclosing tag enter ps leave name span, by simp [Phrase.tokens],
          hfaulty, ?_, ?_⟩
        · rw [hspan, Phrase.span_enclosing]
        · simpa [Phrase.tokensAll] using hn.viable [.enclosing tag enter ps leave name span]

end Reader
end Node

namespace Template

open Node (Reader)

/-- A source within the nesting limit that is no template has one syntax error. When it is about
something unexpected, the tokens in front of that begin a derivation, those up to it do not, and no
element is faulty so far. Otherwise it is about the first element to be finished that is faulty. -/
theorem parse_blames {source : String} {e : SyntaxError}
    (hn : Nesting.check (Token.lex source) = .ok ()) (h : parse source = .error e) :
    (∀ options, compileSource options source = .error (.parse e)) ∧
      ("Unexpected".toList <+: e.message.toList →
        (∃ u t rest, Token.lex source = u ++ t :: rest ∧ e.span = t.span ∧
            e.message = "Unexpected " ++ SyntaxError.found t.value ∧
            Viable u ∧ ¬ Viable (u ++ [t]) ∧ Faultless u) ∨
          e.message = "Unexpected end of input" ∧ Viable (Token.lex source) ∧
            (∀ ps, tokensAll ps ≠ Token.lex source) ∧ Faultless (Token.lex source)) ∧
      (¬ "Unexpected".toList <+: e.message.toList →
        ∃ (before : List (Located Token)) (p : Phrase) (after : List (Located Token)),
          Token.lex source = before ++ p.tokens ++ after ∧ p.Faulty e.cause ∧
            e.span = p.span ∧ Viable (before ++ p.tokens) ∧
            Faultless (before ++ p.tokens).dropLast) := by
  have hstart : Reader.start.Reads [] := .content (.top Phrase.wellFormedAll_nil)
  have hleaves : Reader.start.LeavesOpen := trivial
  have hviable {u : List (Located Token)} {r : Reader} (hu : Reader.start.run u = .ok r) :
      Viable u := (hstart.run hu).viable (hleaves.run hu)
  refine ⟨fun options => by rw [compileSource, h]; rfl, ?_⟩
  have hp := parse_spec source
  rw [h] at hp
  cases hp with
  | nested hf => cases hn.symm.trans hf
  | unfinished _ hu hr =>
    refine ⟨fun _ => .inr ⟨rfl, hviable hu, Reader.not_derivation_of_unfinished hu hr,
      Reader.faultless_of_run hu⟩, fun hword => ?_⟩
    exact absurd (SyntaxError.Cause.message_unexpected none _) hword
  | refused _ hrun =>
    obtain ⟨u, t, rest, r, hlex, hu, ht, hrefuses⟩ := Reader.run_error hrun
    have hfaultless := Reader.faultless_of_run hu
    rcases hrefuses.blames (hstart.run hu) with rfl | ⟨before, p, heq, hfaulty, hspan, hbegins⟩
    · refine ⟨fun _ => .inl ⟨u, t, rest, hlex, rfl, rfl, hviable hu,
        Reader.not_viable_of_unexpected hu ht, hfaultless⟩, fun hword => ?_⟩
      exact absurd (SyntaxError.Cause.message_unexpected (some t.value) _) hword
    · refine ⟨fun hword => absurd hword hfaulty.message, fun _ => ?_⟩
      rw [List.nil_append] at heq
      refine ⟨before, p, rest, ?_, hfaulty, hspan, hbegins, ?_⟩
      · rw [hlex, ← heq, List.append_assoc, List.singleton_append]
      · rw [← heq, List.dropLast_concat]
        exact hfaultless

/-- A closing tag of another name is blamed on the whole element. -/
theorem parse_blames_crossed :
    ∃ e, Nesting.check (Token.lex "<p><b></i>") = .ok () ∧ parse "<p><b></i>" = .error e ∧
      e.message = "closing tag </i> does not match <b>" ∧
      ∃ (before : List (Located Token)) (p : Phrase) (after : List (Located Token)),
        Token.lex "<p><b></i>" = before ++ p.tokens ++ after ∧ p.Faulty e.cause ∧
          e.span = p.span ∧ e.span = ⟨3, 10⟩ := by
  have hlex : Token.lex "<p><b></i>" =
      [⟨.tagOpen, ⟨0, 1⟩⟩, ⟨.name "p", ⟨1, 2⟩⟩, ⟨.tagClose, ⟨2, 3⟩⟩, ⟨.tagOpen, ⟨3, 4⟩⟩,
        ⟨.name "b", ⟨4, 5⟩⟩, ⟨.tagClose, ⟨5, 6⟩⟩, ⟨.closeTagOpen, ⟨6, 8⟩⟩, ⟨.name "i", ⟨8, 9⟩⟩,
        ⟨.tagClose, ⟨9, 10⟩⟩] := by decide +kernel
  have hn : Nesting.check (Token.lex "<p><b></i>") = .ok () := by
    rw [hlex]
    rfl
  have h : parse "<p><b></i>" = .error ⟨⟨3, 10⟩, .mismatchedClosing "i" "b"⟩ := by
    rw [parse, hlex]
    rfl
  obtain ⟨before, p, after, hsplit, hfaulty, hspan, -⟩ :=
    (parse_blames hn h).2.2 (by decide +kernel)
  exact ⟨_, hn, h, rfl, before, p, after, hsplit, hfaulty, hspan, rfl⟩

end Template
end Stencil
