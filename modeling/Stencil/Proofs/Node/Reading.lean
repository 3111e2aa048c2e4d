import Stencil.Proofs.Node.Grammar
import Stencil.Proofs.Node.Moves

/-!
# What a reader has read

A reader holds the trees of the phrases that it has read: of those in front of each open element,
of the start tags of these elements, and of those behind the last start tag. So reading to the end
finds a derivation, and any derivation is read to its end. Parsing accepts the grammar within the
nesting limit, and gives the tree of the derivation.
-/
namespace Stencil

/-- A start tag has no attribute twice exactly when the attribute names are distinct. -/
theorem StartTag.duplicate?_eq_none_iff (tag : StartTag) :
    tag.duplicate? = none ↔ (tag.attributes.map (·.name.value)).Nodup := by
  have hgo (seen names : List String) :
      duplicate?.go seen names = none ↔ names.Nodup ∧ ∀ n ∈ names, n ∉ seen := by
    induction names generalizing seen with
    | nil => simp [duplicate?.go]
    | cons n names ih =>
      rw [duplicate?.go]
      split
      · simp_all
      · rw [ih]
        simp
        grind
  rw [duplicate?, hgo]
  simp

@[simp] theorem TagPhrase.map_name_startTag (tag : TagPhrase) :
    tag.startTag.attributes.map (·.name.value) = tag.attributes.map (·.name.value) := by
  simp [startTag, AttributePhrase.toAttribute, Function.comp_def]

theorem TagPhrase.distinct_iff (tag : TagPhrase) :
    tag.Distinct ↔ tag.startTag.duplicate? = none := by
  rw [StartTag.duplicate?_eq_none_iff, map_name_startTag, Distinct]

/-- The start tag with one more attribute. -/
def TagPhrase.concat (tag : TagPhrase) (a : AttributePhrase) : TagPhrase :=
  ⟨tag.opening, tag.name, tag.attributes ++ [a]⟩

@[simp] theorem TagPhrase.opening_concat (tag : TagPhrase) (a : AttributePhrase) :
    (tag.concat a).opening = tag.opening := rfl
@[simp] theorem TagPhrase.tokens_concat (tag : TagPhrase) (a : AttributePhrase) :
    (tag.concat a).tokens = tag.tokens ++ a.tokens := by
  simp [concat, tokens]

namespace Phrase

@[simp] theorem tokensAll_append (ps qs : List Phrase) :
    tokensAll (ps ++ qs) = tokensAll ps ++ tokensAll qs := by
  induction ps with
  | nil => rfl
  | cons p ps ih => simp [tokensAll, ih]

@[simp] theorem treeAll_append (ps qs : List Phrase) :
    treeAll (ps ++ qs) = treeAll ps ++ treeAll qs := by
  induction ps with
  | nil => rfl
  | cons p ps ih => simp [treeAll, ih]

@[simp] theorem wellFormedAll_nil : WellFormedAll [] := trivial
@[simp] theorem wellFormedAll_append (ps qs : List Phrase) :
    WellFormedAll (ps ++ qs) ↔ WellFormedAll ps ∧ WellFormedAll qs := by
  induction ps with
  | nil => simp [WellFormedAll]
  | cons p ps ih => simp [WellFormedAll, ih, and_assoc]

end Phrase

namespace Node

open Phrase

/-! ## What is read is a derivation -/

/-- The tokens that are read between nodes, where elements of a stack are open: phrases, and for
each element its start tag and the phrases behind it. -/
inductive Nested : List Frame → List Node → List (Located Token) → Prop where
  | top {ps : List Phrase} (h : WellFormedAll ps) : Nested [] (treeAll ps) (tokensAll ps)
  | inside {stack : List Frame} {before : List Node} {read : List (Located Token)}
      {ps : List Phrase} (hr : Nested stack before read) (tag : TagPhrase) (enter : Span)
      (h : WellFormedAll ps) :
    Nested (⟨tag.opening.start, tag.startTag, before⟩ :: stack) (treeAll ps)
      (read ++ (tag.tokens ++ ⟨.tagClose, enter⟩ :: tokensAll ps))

/-- The tokens that a reader has read: behind those between nodes come the first ones of a tag. -/
inductive Reader.Reads : Reader → List (Located Token) → Prop where
  | content {stack : List Frame} {nodes : List Node} {read : List (Located Token)}
      (h : Nested stack nodes read) : Reads ⟨stack, nodes, .content⟩ read
  | tagName {stack : List Frame} {nodes : List Node} {read : List (Located Token)}
      (h : Nested stack nodes read) (opening : Span) :
    Reads ⟨stack, nodes, .tagName opening.start⟩ (read ++ [⟨.tagOpen, opening⟩])
  | attributes {stack : List Frame} {nodes : List Node} {read : List (Located Token)}
      (h : Nested stack nodes read) (tag : TagPhrase) :
    Reads ⟨stack, nodes, .attributes tag.opening.start tag.startTag none⟩ (read ++ tag.tokens)
  | bareName {stack : List Frame} {nodes : List Node} {read : List (Located Token)}
      (h : Nested stack nodes read) (tag : TagPhrase) (name : Located String) :
    Reads ⟨stack, nodes, .attributes tag.opening.start tag.startTag (some name)⟩
      (read ++ (tag.tokens ++ [Token.ofName name]))
  | value {stack : List Frame} {nodes : List Node} {read : List (Located Token)}
      (h : Nested stack nodes read) (tag : TagPhrase) (name : Located String) (equals : Span) :
    Reads ⟨stack, nodes, .value tag.opening.start tag.startTag name⟩
      (read ++ (tag.tokens ++ [Token.ofName name, ⟨.equals, equals⟩]))
  | closingName {stack : List Frame} {nodes : List Node} {read : List (Located Token)}
      (h : Nested stack nodes read) (leave : Span) :
    Reads ⟨stack, nodes, .closingName⟩ (read ++ [⟨.closeTagOpen, leave⟩])
  | closingEnd {stack : List Frame} {nodes : List Node} {read : List (Located Token)}
      (h : Nested stack nodes read) (leave : Span) (name : Located String) :
    Reads ⟨stack, nodes, .closingEnd name⟩
      (read ++ [⟨.closeTagOpen, leave⟩, Token.ofName name])

/-- One more phrase between nodes. -/
theorem Nested.concat {stack : List Frame} {nodes : List Node} {read : List (Located Token)}
    (h : Nested stack nodes read) {p : Phrase} (hp : p.WellFormed) :
    Nested stack (nodes ++ [p.tree]) (read ++ p.tokens) := by
  have htree : treeAll [p] = [p.tree] := rfl
  have htokens : tokensAll [p] = p.tokens := List.append_nil _
  have hall : WellFormedAll [p] := ⟨hp, trivial⟩
  cases h with
  | top hps =>
    rw [← htree, ← htokens, ← treeAll_append, ← tokensAll_append]
    exact .top ((wellFormedAll_append _ _).mpr ⟨hps, hall⟩)
  | @inside stack before read ps hr tag enter hps =>
    have h := hr.inside tag enter ((wellFormedAll_append ps [p]).mpr ⟨hps, hall⟩)
    simpa [htree, htokens] using h

namespace Reader

theorem addBare_startTag (phrase : TagPhrase) (name : Located String) :
    addBare phrase.startTag (some name) = (phrase.concat (.bare name)).startTag := by
  simp [addBare, TagPhrase.startTag, TagPhrase.concat]

theorem addValued_startTag (phrase : TagPhrase) (name : Located String) (equals : Span)
    (v : ValuePhrase) :
    addValued phrase.startTag name v.value =
      (phrase.concat (.valued name equals v)).startTag := by
  simp [addValued, TagPhrase.startTag, TagPhrase.concat]

/-- In a start tag, the tag so far, whether or not a bare attribute waits for an `=`. -/
theorem Reads.of_attributes {stack : List Frame} {nodes : List Node} {start : Nat}
    {tag : StartTag} {bare : Option (Located String)} {read : List (Located Token)}
    (h : Reads ⟨stack, nodes, .attributes start tag bare⟩ read) :
    ∃ (front : List (Located Token)) (phrase : TagPhrase), Nested stack nodes front ∧
      read = front ++ phrase.tokens ∧ start = phrase.opening.start ∧
      addBare tag bare = phrase.startTag := by
  cases h with
  | @attributes _ _ front hn phrase => exact ⟨front, phrase, hn, rfl, rfl, rfl⟩
  | @bareName _ _ front hn phrase name =>
    refine ⟨front, phrase.concat (.bare name), hn, ?_, rfl, addBare_startTag phrase name⟩
    rw [TagPhrase.tokens_concat, AttributePhrase.tokens]

/-- Behind an `=`, a value completes its attribute. -/
theorem Reads.valued {stack : List Frame} {nodes : List Node} {start : Nat} {tag : StartTag}
    {name : Located String} {read : List (Located Token)}
    (h : Reads ⟨stack, nodes, .value start tag name⟩ read) (v : ValuePhrase) :
    Reads ⟨stack, nodes, .attributes start (addValued tag name v.value) none⟩
      (read ++ [v.token]) := by
  cases h with
  | @value _ _ front hn phrase _ equals =>
    have h := Reads.attributes hn (phrase.concat (.valued name equals v))
    rw [TagPhrase.tokens_concat] at h
    rw [addValued_startTag phrase name equals]
    simpa [AttributePhrase.tokens] using h

/-- A move reads its token. -/
theorem Reads.moves {r r' : Reader} {t : Located Token} {read : List (Located Token)}
    (h : r.Reads read) (hm : Moves r t r') : r'.Reads (read ++ [t]) := by
  cases hm with
  | text =>
    cases h with
    | content hn => exact .content (hn.concat (p := .text ⟨_, _⟩) trivial)
  | comment =>
    cases h with
    | content hn => exact .content (hn.concat (p := .comment ⟨_, _⟩) trivial)
  | opens =>
    cases h with
    | content hn => exact .tagName hn _
  | leaves hs =>
    cases h with
    | content hn => exact .closingName hn _
  | tagName =>
    cases h with
    | @tagName _ _ front hn opening =>
      rw [List.append_assoc]
      exact .attributes hn ⟨opening, ⟨_, _⟩, []⟩
  | bareName =>
    obtain ⟨front, phrase, hn, rfl, rfl, hb⟩ := h.of_attributes
    rw [hb, List.append_assoc]
    exact .bareName hn phrase ⟨_, _⟩
  | equals =>
    cases h with
    | bareName hn phrase name =>
      rw [List.append_assoc, List.append_assoc]
      exact .value hn phrase _ _
  | @literal _ _ _ _ _ span s => exact h.valued (.literal ⟨s, span⟩)
  | @expression _ _ _ _ _ span e => exact h.valued (.expression ⟨e, span⟩)
  | enters =>
    obtain ⟨front, phrase, hn, rfl, rfl, hb⟩ := h.of_attributes
    rw [hb, List.append_assoc]
    exact .content (hn.inside phrase _ wellFormedAll_nil)
  | @closesItself _ _ _ _ _ span hd =>
    obtain ⟨front, phrase, hn, rfl, rfl, hb⟩ := h.of_attributes
    rw [hb] at hd ⊢
    have h := hn.concat (p := .selfClosing phrase span) (phrase.distinct_iff.mpr hd)
    rw [tree, span_selfClosing, tokens, ← List.append_assoc] at h
    exact .content h
  | closingName =>
    cases h with
    | closingName hn leave =>
      rw [List.append_assoc]
      exact .closingEnd hn leave ⟨_, _⟩
  | @closes stack frame nodes name span hname hd =>
    cases h with
    | @closingEnd _ _ read hn leave _ =>
      cases hn with
      | @inside _ before front ps hr phrase enter hps =>
        have hp : (Phrase.enclosing phrase enter ps leave name span).WellFormed :=
          ⟨hname, phrase.distinct_iff.mpr hd, hps⟩
        have h := hr.concat hp
        rw [tree, span_enclosing, tokens] at h
        simpa using Reads.content h

theorem Reads.run {r r' : Reader} {read ts : List (Located Token)} (h : r.Reads read)
    (hr : r.run ts = .ok r') : r'.Reads (read ++ ts) :=
  run_invariant Reads.moves h hr

/-- What is read to its end derives from the grammar. -/
theorem derivation_of_run {ts : List (Located Token)} {r : Reader} (h : start.run ts = .ok r)
    (hr : r.Finished) :
    ∃ ps, Derives ps ts ∧ treeAll ps = r.nodes := by
  have hstart : start.Reads [] := .content (.top wellFormedAll_nil)
  have hreads := hstart.run h
  obtain ⟨stack, nodes, phase⟩ := r
  obtain ⟨rfl, rfl⟩ := hr
  cases hreads with
  | content hn =>
    generalize hts : [] ++ ts = read at hn
    cases hn with
    | @top ps hps => exact ⟨ps, ⟨hts.symm, hps⟩, rfl⟩

/-! ## A derivation is read to its end -/

/-- Attributes are read into the start tag, but the last one, when it is bare, waits for an `=`. -/
theorem run_attributes (stack : List Frame) (nodes : List Node) (start : Nat) (tag : StartTag)
    (bare : Option (Located String)) (as : List AttributePhrase) :
    ∃ tag' bare', (∀ ts, run ⟨stack, nodes, .attributes start tag bare⟩
        (as.flatMap (·.tokens) ++ ts) = run ⟨stack, nodes, .attributes start tag' bare'⟩ ts) ∧
      addBare tag' bare' =
        ⟨tag.name, (addBare tag bare).attributes ++ as.map (·.toAttribute)⟩ := by
  induction as generalizing tag bare with
  | nil =>
    refine ⟨tag, bare, fun ts => rfl, ?_⟩
    cases bare <;> simp [addBare]
  | cons a as ih =>
    cases a with
    | bare name =>
      obtain ⟨tag', bare', hrun, htag⟩ := ih (addBare tag bare) (some name)
      refine ⟨tag', bare', fun ts => ?_, ?_⟩
      · rw [← hrun ts]
        exact run_of_step_ok rfl _
      · rw [htag]
        cases bare <;> simp [addBare]
    | valued name equals v =>
      obtain ⟨tag', bare', hrun, htag⟩ :=
        ih (addValued (addBare tag bare) name v.value) none
      refine ⟨tag', bare', fun ts => ?_, ?_⟩
      · rw [← hrun ts]
        have hv : (⟨stack, nodes, .value start (addBare tag bare) name⟩ : Reader).step v.token =
            .ok ⟨stack, nodes,
              .attributes start (addValued (addBare tag bare) name v.value) none⟩ := by
          cases v <;> rfl
        exact (run_of_step_ok rfl _).trans ((run_of_step_ok rfl _).trans (run_of_step_ok hv _))
      · rw [htag]
        cases bare <;> simp [addBare, addValued]

/-- A start tag is read up to the mark that ends it. -/
theorem run_tag (stack : List Frame) (nodes : List Node) (phrase : TagPhrase) :
    ∃ tag bare, (∀ ts, run ⟨stack, nodes, .content⟩ (phrase.tokens ++ ts) =
        run ⟨stack, nodes, .attributes phrase.opening.start tag bare⟩ ts) ∧
      addBare tag bare = phrase.startTag := by
  obtain ⟨tag, bare, hrun, htag⟩ := run_attributes stack nodes phrase.opening.start
    ⟨phrase.name, []⟩ none phrase.attributes
  refine ⟨tag, bare, fun ts => ?_, ?_⟩
  · rw [← hrun ts]
    exact (run_of_step_ok rfl _).trans (run_of_step_ok rfl _)
  · simpa [addBare, TagPhrase.startTag] using htag

/-- At the mark that closes it, an element with no body is checked. -/
theorem run_selfClosing (stack : List Frame) (nodes : List Node) (phrase : TagPhrase)
    (close : Span) (ts : List (Located Token)) :
    run ⟨stack, nodes, .content⟩ ((Phrase.selfClosing phrase close).tokens ++ ts) =
      ((finish (Phrase.selfClosing phrase close).span phrase.startTag none []).map
        (⟨stack, nodes, .content⟩ : Reader).push).bind (·.run ts) := by
  obtain ⟨tag, bare, hrun, htag⟩ := run_tag stack nodes phrase
  rw [tokens, List.append_assoc, hrun, span_selfClosing, ← htag]
  rfl

/-- The start tag of an element with a body opens it. -/
theorem run_enclosing (stack : List Frame) (nodes : List Node) (phrase : TagPhrase) (enter : Span)
    (children : List Phrase) (leave : Span) (name : Located String) (close : Span)
    (ts : List (Located Token)) :
    run ⟨stack, nodes, .content⟩
        ((Phrase.enclosing phrase enter children leave name close).tokens ++ ts) =
      run ⟨⟨phrase.opening.start, phrase.startTag, nodes⟩ :: stack, [], .content⟩
        (tokensAll children ++
          ⟨.closeTagOpen, leave⟩ :: Token.ofName name :: ⟨.tagClose, close⟩ :: ts) := by
  obtain ⟨tag, bare, hrun, htag⟩ := run_tag stack nodes phrase
  rw [tokens, List.append_assoc, hrun, ← htag]
  simp only [List.cons_append, List.append_assoc]
  exact run_of_step_ok rfl _

/-- A closing tag checks the element that it closes. -/
theorem run_leave (frame : Frame) (stack : List Frame) (nodes : List Node) (leave : Span)
    (name : Located String) (close : Span) (ts : List (Located Token)) :
    run ⟨frame :: stack, nodes, .content⟩
        (⟨.closeTagOpen, leave⟩ :: Token.ofName name :: ⟨.tagClose, close⟩ :: ts) =
      ((finish ⟨frame.start, close.stop⟩ frame.tag (some name.value) nodes).map
        (⟨stack, frame.before, .content⟩ : Reader).push).bind (·.run ts) :=
  (run_of_step_ok rfl _).trans ((run_of_step_ok rfl _).trans rfl)

theorem finish_distinct {phrase : TagPhrase} (h : phrase.Distinct) {closing : Option String}
    (hc : ∀ name ∈ closing, name = phrase.name.value) (span : Span) (children : List Node) :
    finish span phrase.startTag closing children =
      .ok (.element 0 span phrase.startTag false children) := by
  have hf : closing.filter (· ≠ phrase.startTag.name.value) = none := by
    rw [Option.filter_eq_none_iff]
    intro name hn
    simp [TagPhrase.startTag, hc name hn]
  rw [finish, hf]
  simp only [phrase.distinct_iff.mp h]

mutual
/-- A well-formed phrase is read into its tree. -/
theorem run_phrase (stack : List Frame) (nodes : List Node) {p : Phrase} (h : p.WellFormed)
    (ts : List (Located Token)) :
    run ⟨stack, nodes, .content⟩ (p.tokens ++ ts) =
      run ⟨stack, nodes ++ [p.tree], .content⟩ ts := by
  cases p with
  | text content => exact run_of_step_ok rfl _
  | comment content => exact run_of_step_ok rfl _
  | selfClosing phrase close =>
    rw [run_selfClosing, finish_distinct h (by simp : ∀ name ∈ none, _)]
    rfl
  | enclosing phrase enter children leave name close =>
    obtain ⟨hname, hd, hchildren⟩ := h
    rw [run_enclosing, run_phrases _ _ hchildren, run_leave,
      finish_distinct hd (by simpa using hname : ∀ n ∈ some name.value, _), tree, span_enclosing]
    rfl

theorem run_phrases (stack : List Frame) (nodes : List Node) {ps : List Phrase}
    (h : WellFormedAll ps) (ts : List (Located Token)) :
    run ⟨stack, nodes, .content⟩ (tokensAll ps ++ ts) =
      run ⟨stack, nodes ++ treeAll ps, .content⟩ ts := by
  cases ps with
  | nil => simp [tokensAll, treeAll]
  | cons p ps =>
    rw [tokensAll, List.append_assoc, run_phrase _ _ h.1, run_phrases _ _ h.2, treeAll,
      List.append_assoc]
    rfl
end

/-- A derivation is read to its end. -/
theorem run_derivation {ps : List Phrase} {ts : List (Located Token)} (h : Derives ps ts) :
    start.run ts = .ok ⟨[], treeAll ps, .content⟩ := by
  have hrun := run_phrases [] [] h.wellFormed []
  rw [List.append_nil, h.tokens] at hrun
  exact hrun

end Reader
end Node

namespace Template

open Phrase (Derives treeAll tokensAll)

theorem parse_of_derives {source : String} {ps : List Phrase}
    (hn : Nesting.check (Token.lex source) = .ok ()) (h : Derives ps (Token.lex source)) :
    parse source = .ok (number (treeAll ps)) := by
  have hrun := Node.Reader.run_derivation h
  have hp := parse_spec source
  generalize parse source = outcome at hp
  cases hp with
  | nested hf => cases hn.symm.trans hf
  | refused _ hf => cases hrun.symm.trans hf
  | unfinished _ hr hf =>
    cases hrun.symm.trans hr
    exact absurd ⟨rfl, rfl⟩ hf
  | finished _ hr _ =>
    cases hrun.symm.trans hr
    rfl

theorem derives_of_parse {source : String} {t : Template} (h : parse source = .ok t) :
    Nesting.check (Token.lex source) = .ok () ∧
      ∃ ps, Derives ps (Token.lex source) ∧ t = number (treeAll ps) := by
  have hp := parse_spec source
  rw [h] at hp
  cases hp with
  | finished hn hr hf =>
    obtain ⟨ps, hd, hnodes⟩ := Node.Reader.derivation_of_run hr hf
    exact ⟨hn, ps, hd, by rw [hnodes]⟩

/-- Within the nesting limit, the templates are what the grammar derives. A source is read into the
tree of its derivation, of which there is only one, and a source with invalid input has none. -/
theorem parse_accepts_grammar (source : String) :
    (∀ t, parse source = .ok t ↔
        Nesting.check (Token.lex source) = .ok () ∧
          ∃ ps, Derives ps (Token.lex source) ∧ t = number (treeAll ps)) ∧
      Function.Injective tokensAll ∧
      ((∃ t ∈ Token.lex source, t.value = .invalid) → ∃ e, parse source = .error e) := by
  refine ⟨fun t => ⟨derives_of_parse, ?_⟩, Phrase.tokensAll_injective, ?_⟩
  · rintro ⟨hn, ps, hd, rfl⟩
    exact parse_of_derives hn hd
  · rintro ⟨t, ht, hinvalid⟩
    cases hp : parse source with
    | error e => exact ⟨e, rfl⟩
    | ok tree =>
      obtain ⟨-, ps, hd, -⟩ := derives_of_parse hp
      rw [← hd.tokens] at ht
      exact absurd hinvalid (Phrase.valid_tokensAll ps t ht)

end Template
end Stencil
