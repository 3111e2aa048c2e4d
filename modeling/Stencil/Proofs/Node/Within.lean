import Stencil.Proofs.Nesting
import Stencil.Proofs.Node.Moves
import Stencil.Proofs.Numbering
import Stencil.Proofs.Token.Segments

/-!
# Places of what is read

All that a reader holds has its place in the part of the text that it has read, and no span is
reversed. The same goes for its refusals. Only at the end of input is the place of an error another
one.
-/
namespace Stencil

def StartTag.Within (high : Nat) (tag : StartTag) : Prop :=
  tag.name.span.Within high ∧ ∀ a ∈ tag.attributes, a.span.Within high

/-- The spans of a node itself, without those of its children. -/
def Node.Within (high : Nat) : Node → Prop
  | .element _ span tag _ _ => span.Within high ∧ tag.Within high
  | .text _ span _ | .comment _ span _ => span.Within high

theorem StartTag.Within.mono {low high : Nat} {tag : StartTag} (h : tag.Within low)
    (hle : low ≤ high) : tag.Within high :=
  ⟨h.1.mono hle, fun a ha => (h.2 a ha).mono hle⟩

theorem Node.Within.mono {low high : Nat} {n : Node} (h : n.Within low) (hle : low ≤ high) :
    n.Within high := by
  cases n with
  | element id span tag preserve children => exact ⟨h.1.mono hle, h.2.mono hle⟩
  | text id span content => exact Span.Within.mono h hle
  | comment id span content => exact Span.Within.mono h hle

namespace Node

/-- The spans of a list and of all below it. -/
def WithinAll (high : Nat) (ns : List Node) : Prop :=
  ∀ n ∈ walkAll ns, n.Within high

def Phase.Within (high : Nat) : Phase → Prop
  | .content | .closingName | .closingEnd _ => True
  | .tagName start => start ≤ high
  | .attributes start tag bare =>
    start ≤ high ∧ tag.Within high ∧ ∀ name ∈ bare, name.span.Within high
  | .value start tag name => start ≤ high ∧ tag.Within high ∧ name.span.Within high

structure Frame.Within (high : Nat) (f : Frame) : Prop where
  start : f.start ≤ high
  tag : f.tag.Within high
  before : WithinAll high f.before

structure Reader.Within (high : Nat) (r : Reader) : Prop where
  stack : ∀ f ∈ r.stack, f.Within high
  nodes : WithinAll high r.nodes
  phase : r.phase.Within high

theorem WithinAll.mono {low high : Nat} {ns : List Node} (h : WithinAll low ns)
    (hle : low ≤ high) : WithinAll high ns :=
  fun n hn => (h n hn).mono hle

/-- Numbering moves nothing. -/
theorem WithinAll.numberAll {high : Nat} {scope : Bool} {next : Nat} {ns : List Node}
    (h : WithinAll high ns) : WithinAll high (numberAll scope next ns) := by
  induction ns using siblings_induction generalizing scope next with
  | nil => exact h
  | element id span tag preserve children ns ihc ihn =>
    simp only [WithinAll, walkAll, walk, List.cons_append, List.forall_mem_cons,
      List.forall_mem_append] at h
    simp only [WithinAll, Node.numberAll, number, walkAll, walk, List.cons_append,
      List.forall_mem_cons, List.forall_mem_append]
    exact ⟨h.1, ihc h.2.1, ihn h.2.2⟩
  | text id span content ns ihn | comment id span content ns ihn =>
    simp only [WithinAll, walkAll, walk, List.cons_append, List.nil_append,
      List.forall_mem_cons] at h
    simp only [WithinAll, Node.numberAll, number, walkAll, walk, List.cons_append, List.nil_append,
      List.forall_mem_cons]
    exact ⟨h.1, ihn h.2⟩

theorem WithinAll.concat {high : Nat} {ns : List Node} (h : WithinAll high ns) {n : Node}
    (hn : WithinAll high [n]) : WithinAll high (ns ++ [n]) := by
  rw [WithinAll, walkAll_append, List.forall_mem_append]
  exact ⟨h, hn⟩

theorem withinAll_text {high id : Nat} {span : Span} {content : String} (h : span.Within high) :
    WithinAll high [text id span content] :=
  List.forall_mem_singleton.mpr h

theorem withinAll_comment {high id : Nat} {span : Span} {content : String} (h : span.Within high) :
    WithinAll high [comment id span content] :=
  List.forall_mem_singleton.mpr h

theorem withinAll_element {high id : Nat} {span : Span} {tag : StartTag} {preserve : Bool}
    {children : List Node} (hs : span.Within high) (ht : tag.Within high)
    (hc : WithinAll high children) :
    WithinAll high [element id span tag preserve children] := by
  simp only [WithinAll, walkAll, walk, List.append_nil, List.forall_mem_cons]
  exact ⟨⟨hs, ht⟩, hc⟩

theorem Phase.Within.mono {low high : Nat} {phase : Phase} (h : phase.Within low)
    (hle : low ≤ high) : phase.Within high := by
  cases phase with
  | content => trivial
  | tagName start => exact Nat.le_trans h hle
  | attributes start tag bare =>
    obtain ⟨hs, ht, hb⟩ := h
    exact ⟨Nat.le_trans hs hle, ht.mono hle, fun name hn => (hb name hn).mono hle⟩
  | value start tag name =>
    obtain ⟨hs, ht, hn⟩ := h
    exact ⟨Nat.le_trans hs hle, ht.mono hle, hn.mono hle⟩
  | closingName => trivial
  | closingEnd name => trivial

namespace Reader

theorem Within.mono {low high : Nat} {r : Reader} (h : r.Within low) (hle : low ≤ high) :
    r.Within high where
  stack f hf :=
    ⟨Nat.le_trans (h.stack f hf).start hle, (h.stack f hf).tag.mono hle,
      (h.stack f hf).before.mono hle⟩
  nodes := h.nodes.mono hle
  phase := h.phase.mono hle

theorem within_start : start.Within 0 :=
  ⟨by simp [start], by simp [start, WithinAll, walkAll], trivial⟩

theorem within_addBare {high : Nat} {tag : StartTag} {bare : Option (Located String)}
    (ht : tag.Within high) (hb : ∀ name ∈ bare, name.span.Within high) :
    (addBare tag bare).Within high := by
  cases bare with
  | none => exact ht
  | some name =>
    refine ⟨ht.1, ?_⟩
    simp only [addBare, List.forall_mem_append, List.forall_mem_singleton]
    exact ⟨ht.2, hb name rfl⟩

theorem within_addValued {high : Nat} {tag : StartTag} {name : Located String}
    {value : Located AttributeValue} (ht : tag.Within high) (hn : name.span.Within high)
    (hv : value.span.stop = high) : (addValued tag name value).Within high := by
  refine ⟨ht.1, ?_⟩
  simp only [addValued, List.forall_mem_append, List.forall_mem_singleton]
  exact ⟨ht.2, hv ▸ Nat.le_trans hn.1 hn.2, Nat.le_of_eq hv⟩

/-- A move keeps all places in what is read, once the token is. -/
theorem within_moves {r r' : Reader} {t : Located Token} (hr : r.Within t.span.stop)
    (ht : t.span.start ≤ t.span.stop) (h : Moves r t r') : r'.Within t.span.stop := by
  have hspan : t.span.Within t.span.stop := ⟨ht, Nat.le_refl _⟩
  cases h with
  | text => exact ⟨hr.stack, hr.nodes.concat (withinAll_text hspan), trivial⟩
  | comment => exact ⟨hr.stack, hr.nodes.concat (withinAll_comment hspan), trivial⟩
  | opens => exact ⟨hr.stack, hr.nodes, ht⟩
  | leaves hs => exact ⟨hr.stack, hr.nodes, trivial⟩
  | tagName => exact ⟨hr.stack, hr.nodes, hr.phase, ⟨hspan, by simp⟩, by simp⟩
  | bareName =>
    obtain ⟨hs, htag, hb⟩ := hr.phase
    exact ⟨hr.stack, hr.nodes, hs, within_addBare htag hb, by simpa using hspan⟩
  | equals =>
    obtain ⟨hs, htag, hb⟩ := hr.phase
    exact ⟨hr.stack, hr.nodes, hs, htag, hb _ rfl⟩
  | literal =>
    obtain ⟨hs, htag, hn⟩ := hr.phase
    exact ⟨hr.stack, hr.nodes, hs, within_addValued htag hn rfl, by simp⟩
  | expression =>
    obtain ⟨hs, htag, hn⟩ := hr.phase
    exact ⟨hr.stack, hr.nodes, hs, within_addValued htag hn rfl, by simp⟩
  | enters =>
    obtain ⟨hs, htag, hb⟩ := hr.phase
    refine ⟨?_, by simp [WithinAll, walkAll], trivial⟩
    rw [List.forall_mem_cons]
    exact ⟨⟨hs, within_addBare htag hb, hr.nodes⟩, hr.stack⟩
  | closesItself hd =>
    obtain ⟨hs, htag, hb⟩ := hr.phase
    exact ⟨hr.stack, hr.nodes.concat (withinAll_element ⟨hs, Nat.le_refl _⟩
      (within_addBare htag hb) (by simp [WithinAll, walkAll])), trivial⟩
  | closingName => exact ⟨hr.stack, hr.nodes, trivial⟩
  | closes hn hd =>
    obtain ⟨hf, hstack⟩ := List.forall_mem_cons.mp hr.stack
    exact ⟨hstack, hf.before.concat (withinAll_element ⟨hf.start, Nat.le_refl _⟩ hf.tag hr.nodes),
      trivial⟩

end Reader
end Node

/-- The error says that the input ended too early. -/
def SyntaxError.AtEnd (e : SyntaxError) : Prop :=
  ∃ expected, e.cause = .unexpected none expected

namespace Node.Reader

/-- The place of a faulty element is the element. -/
theorem span_of_finish {span : Span} {tag : StartTag} {closing : Option String}
    {children : List Node} {e : SyntaxError} (h : finish span tag closing children = .error e) :
    e.span = span ∧ ¬ e.AtEnd := by
  rcases finish_error h with ⟨name, -, -, rfl⟩ | ⟨-, name, -, rfl⟩
  · exact ⟨rfl, by simp [SyntaxError.AtEnd]⟩
  · exact ⟨rfl, by simp [SyntaxError.AtEnd]⟩

/-- A refusal points into what is read, with the token. -/
theorem within_refuses {r : Reader} {t : Located Token} {e : SyntaxError}
    (hr : r.Within t.span.stop) (ht : t.span.start ≤ t.span.stop) (h : Refuses r t e) :
    e.span.Within t.span.stop ∧ ¬ e.AtEnd := by
  cases h with
  | unexpected => exact ⟨⟨ht, Nat.le_refl _⟩, by simp [SyntaxError.AtEnd]⟩
  | closesItself hf =>
    obtain ⟨hs, he⟩ := span_of_finish hf
    exact ⟨hs ▸ ⟨hr.phase.1, Nat.le_refl _⟩, he⟩
  | closes hf =>
    obtain ⟨hs, he⟩ := span_of_finish hf
    exact ⟨hs ▸ ⟨(hr.stack _ (by simp)).start, Nat.le_refl _⟩, he⟩

/-- Along a run all places stay within what is read, to the end or to the first refusal. -/
theorem within_run {r : Reader} {low high : Nat} {ts : List (Located Token)} (hr : r.Within low)
    (hts : Token.Ascending low high ts) :
    (∀ r', r.run ts = .ok r' → r'.Within high) ∧
      ∀ e, r.run ts = .error e → e.span.Within high ∧ ¬ e.AtEnd := by
  induction ts generalizing r low with
  | nil =>
    constructor
    · rintro r' ⟨⟩
      exact hr.mono hts
    · rintro e ⟨⟩
  | cons t ts ih =>
    obtain ⟨hlow, hlt, hts⟩ := hts
    have ht := Nat.le_of_lt hlt
    have hr' := hr.mono (Nat.le_trans hlow ht)
    rcases step_cases r t with ⟨s, hs, hm⟩ | ⟨e, he, hf⟩
    · rw [run_of_step_ok hs]
      exact ih (within_moves hr' ht hm) hts
    · obtain ⟨hw, hend⟩ := within_refuses hr' ht hf
      rw [run_of_step_error he]
      constructor
      · rintro r' ⟨⟩
      · rintro f ⟨⟩
        exact ⟨hw.mono hts.le, hend⟩

end Node.Reader

namespace Template

theorem withinAll_parse {source : String} {t : Template} (h : parse source = .ok t) :
    Node.WithinAll source.utf8ByteSize t := by
  have hrun := Node.Reader.within_run Node.Reader.within_start (Token.ascending_lex source)
  have hp := parse_spec source
  rw [h] at hp
  cases hp with
  | finished hn hr hf => exact (hrun.1 _ hr).nodes.numberAll

/-- A source that is no template is refused at a place in it, or at its end. -/
theorem span_of_parse_error {source : String} {e : SyntaxError} (h : parse source = .error e) :
    (e.span.Within source.utf8ByteSize ∧ ¬ e.AtEnd) ∨
      e.AtEnd ∧ e.span = ⟨source.utf8ByteSize, Token.lastStop 0 (Token.lex source)⟩ := by
  have hts := Token.ascending_lex source
  have hp := parse_spec source
  rw [h] at hp
  cases hp with
  | nested hn =>
    obtain ⟨hw, hc⟩ := Nesting.within_of_check hts hn
    exact .inl ⟨hw, by simp [SyntaxError.AtEnd, hc]⟩
  | refused hn hr => exact .inl ((Node.Reader.within_run Node.Reader.within_start hts).2 e hr)
  | unfinished hn hr hf => exact .inr ⟨⟨_, rfl⟩, rfl⟩

end Template
end Stencil
