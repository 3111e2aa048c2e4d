import Stencil.Proofs.Compile.Places
import Stencil.Proofs.Node.Lossless
import Stencil.Proofs.Node.Names

/-!
# What errors show of the source

The place of an error lies in the start tag of the element that the error names. What stands there
in the source is the whole attribute that the error is about, from its name to the end of its value,
or, when the error is about several attributes, the name of the tag.
-/
namespace Stencil

/-- What an error shows of the source: a text in the start tag of its element, in front of
everything inside the element. -/
structure CompileError.Shows (source : List Char) (span : Span) (tag : StartTag)
    (children : List Node) (e : CompileError) (text : List Char) : Prop where
  named : e.tag = tag.name.value
  covers : e.span.Covers source text
  nonempty : text ≠ []
  inside : span.start ≤ e.span.start ∧ e.span.stop ≤ span.stop
  before : ∀ n ∈ children, e.span.stop ≤ n.span.start
  directive : match e.cause.directive? with
    | none => e.span = tag.name.span ∧ text = tag.name.value.toList
    | some directive =>
      ∃ a ∈ tag.attributes, a.name.value = directive ∧ a.ReadFrom source ∧ e.span = a.span

theorem Attribute.ReadFrom.text {source : List Char} {a : Attribute} (h : a.ReadFrom source) :
    ∃ value, a.span.Covers source (a.name.value.toList ++ value) := by
  obtain ⟨hname, hvalue⟩ := h
  split at hvalue
  · exact ⟨[], by simpa [hvalue] using hname⟩
  · obtain ⟨before, behind, cs, -, -, -, hall⟩ := hvalue
    exact ⟨_, hall⟩

/-- The start tag of an element stands between its `<` and its children. -/
theorem Node.startTag_of_readFrom {source : List Char} {id : Nat} {span : Span} {tag : StartTag}
    {preserve : Bool} {children : List Node}
    (h : (element id span tag preserve children).ReadFrom source) :
    ∃ s, tag.ReadFrom source s ∧ span.start ≤ s.start ∧ s.stop ≤ span.stop ∧
      ∀ n ∈ children, s.stop ≤ n.span.start := by
  obtain ⟨-, ⟨mark, hself⟩ | ⟨enter, leave, name, close, hclosed⟩⟩ := h
  · refine ⟨_, hself.startTag, Nat.le_succ _, hself.stop ▸ hself.marked.le, ?_⟩
    simp [hself.empty]
  · have hinside : enter.stop ≤ close.stop :=
      calc enter.stop
        _ ≤ leave.start := hclosed.tiled.le
        _ ≤ leave.stop := hclosed.left.le
        _ ≤ close.start := hclosed.spaced.le
        _ ≤ close.stop := hclosed.marked.le
    refine ⟨_, hclosed.startTag, Nat.le_succ _,
      hclosed.stop ▸ Nat.le_trans hclosed.entered.le hinside, fun n hn => ?_⟩
    exact Nat.le_trans hclosed.entered.le
      (hclosed.tiled.le_start n.span (List.mem_map_of_mem hn))

/-- An error shows what it points at. -/
theorem CompileError.PointsAt.shows {source : List Char} {n : Node} {e : CompileError}
    (he : e.PointsAt n) (hr : n.ReadFrom source) (hn : n.IsTidy) :
    ∃ id span tag preserve children text, n = .element id span tag preserve children ∧
      e.node = id ∧ e.Shows source span tag children text := by
  cases n with
  | element id span tag preserve children =>
    obtain ⟨hid, htag, hpoints⟩ := he
    obtain ⟨s, hread, hlow, hhigh, hchildren⟩ := Node.startTag_of_readFrom hr
    -- Both kinds of places are among those of the start tag.
    have hplaced : ∀ u ∈ tag.name.span :: tag.attributes.map (·.span), e.span = u →
        (span.start ≤ e.span.start ∧ e.span.stop ≤ span.stop) ∧
          ∀ n ∈ children, e.span.stop ≤ n.span.start := by
      rintro u hu rfl
      have hstart := hread.spaced.le_start _ hu
      have hstop := hread.spaced.stop_le _ hu
      exact ⟨⟨Nat.le_trans hlow hstart, Nat.le_trans hstop hhigh⟩,
        fun n hn => Nat.le_trans hstop (hchildren n hn)⟩
    rw [Cause.PointsInto] at hpoints
    cases hd : e.cause.directive? with
    | none =>
      rw [hd] at hpoints
      obtain ⟨hinside, hbefore⟩ := hplaced _ List.mem_cons_self hpoints
      exact ⟨id, span, tag, preserve, children, _, rfl, hid, htag, hpoints ▸ hread.name,
        hn.1.ne_empty, hinside, hbefore, by rw [hd]; exact ⟨hpoints, rfl⟩⟩
    | some directive =>
      rw [hd] at hpoints
      obtain ⟨a, ha, hname, hspan⟩ := hpoints
      obtain ⟨hinside, hbefore⟩ :=
        hplaced _ (List.mem_cons_of_mem _ (List.mem_map_of_mem ha)) hspan
      have hattribute := hread.attributes a ha
      obtain ⟨value, htext⟩ := hattribute.text
      exact ⟨id, span, tag, preserve, children, _, rfl, hid, htag, hspan ▸ htext,
        List.append_ne_nil_of_left_ne_nil (hn.2 a ha).1.ne_empty _, hinside, hbefore,
        by rw [hd]; exact ⟨a, ha, hname, hattribute, hspan⟩⟩
  | text id span content => exact he.elim
  | comment id span content => exact he.elim

namespace Template

/-- Where a parsed template fails to compile, each error names an element by its place in a walk
over the tree, and it shows a part of the start tag of this element: the directive that it is about,
complete, or the name of the tag. -/
theorem compile_shows {options : Options} {source : String} {t : Template}
    {es : List CompileError} (hp : parse source = .ok t) (hc : t.compile options = .error es) :
    ∀ e ∈ es, ∃ id span tag preserve children text,
      (Node.walkAll t)[e.node]? = some (.element id span tag preserve children) ∧
        e.Shows source.toList span tag children text := by
  intro e he
  have hnumbered := isNumbered_of_parse hp
  obtain ⟨n, hn, hpoints⟩ := pointsAt_of_compile hc e he
  rw [number_of_isNumbered hnumbered] at hn
  obtain ⟨id, span, tag, preserve, children, text, rfl, hid, hshows⟩ :=
    hpoints.shows ((parse_lossless hp).2 n hn) (isTidy_of_parse hp n hn)
  refine ⟨id, span, tag, preserve, children, text, ?_, hshows⟩
  rw [hid]
  exact Node.getElem?_walkAll hnumbered hn

/-- Behind a letter of two bytes, an `else` with a value and without an `if`. Both errors show the
attribute from its name to its closing quote. -/
theorem compile_shows_else :
    ∃ t es, parse "\u00fc<b k else='v'/>" = .ok t ∧ t.compile .standard = .error es ∧
      es.map (·.cause) = [.elseWithValue, .orphaned "else"] ∧
      ∀ e ∈ es, ∃ id span tag preserve children,
        (Node.walkAll t)[e.node]? = some (.element id span tag preserve children) ∧
          e.Shows "\u00fc<b k else='v'/>".toList span tag children "else='v'".toList := by
  let phrases : List Phrase :=
    [.text ⟨"\u00fc", ⟨0, 2⟩⟩,
      .selfClosing ⟨⟨2, 3⟩, ⟨"b", ⟨3, 4⟩⟩, [.bare ⟨"k", ⟨5, 6⟩⟩,
        .valued ⟨"else", ⟨7, 11⟩⟩ ⟨11, 12⟩ (.literal ⟨"v", ⟨12, 15⟩⟩)]⟩ ⟨15, 17⟩]
  have hlex : Token.lex "\u00fc<b k else='v'/>" = Phrase.tokensAll phrases := by decide +kernel
  have hparse := parse_of_derives (by rw [hlex]; rfl)
    ⟨hlex.symm, ⟨trivial, by simp [Phrase.WellFormed, TagPhrase.Distinct, AttributePhrase.name],
      trivial⟩⟩
  let faulty : List CompileError :=
    [⟨.elseWithValue, "b", ⟨7, 15⟩, 1⟩, ⟨.orphaned "else", "b", ⟨7, 15⟩, 1⟩]
  have hcompile : (number (Phrase.treeAll phrases)).compile .standard = .error faulty :=
    (compile_eq .standard _).2 (by decide)
  have hcovers : Span.Covers "\u00fc<b k else='v'/>".toList ⟨7, 15⟩ "else='v'".toList :=
    ⟨"\u00fc<b k ".toList, "/>".toList, by decide, by decide⟩
  have hspans : ∀ e ∈ faulty, e.span = ⟨7, 15⟩ := by decide
  refine ⟨_, faulty, hparse, hcompile, rfl, fun e he => ?_⟩
  obtain ⟨id, span, tag, preserve, children, text, hnode, hshows⟩ :=
    compile_shows hparse hcompile e he
  have htext : text = "else='v'".toList := (hspans e he ▸ hshows.covers).unique hcovers
  exact ⟨id, span, tag, preserve, children, hnode, htext ▸ hshows⟩

end Template
end Stencil
