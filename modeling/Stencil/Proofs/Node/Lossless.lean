import Stencil.Proofs.Node.Reading
import Stencil.Proofs.Node.Stored
import Stencil.Proofs.Token.Spelling

/-!
# Trees as maps of their source

Every part of a parsed tree knows the place that it was read from, and nothing of the source lies
outside of these places but the marks of tags and the blanks in them. Each part covers the text that
it holds, and the nodes of a list cover theirs without a gap.
-/
namespace Stencil

open Token (Joined Spells isTagBlank)

/-! ## What is read from where -/

/-- Places one behind the other, with only blanks around them, from offset `low` to `high`. -/
def Span.Spaced (source : List Char) (low high : Nat) : List Span → Prop
  | [] => CoversAll source isTagBlank ⟨low, high⟩
  | s :: ss =>
    CoversAll source isTagBlank ⟨low, s.start⟩ ∧ s.start ≤ s.stop ∧ Spaced source s.stop high ss

/-- The text of a value is in equal quotes, or in braces and trimmed. -/
def AttributeValue.ReadFrom (source : List Char) (span : Span) (cs : List Char) :
    AttributeValue → Prop
  | literal text => span.Covers source cs ∧ (Token.literal text).Spells cs
  | expression e =>
    span.Covers source cs ∧ (Token.expression e.source).Spells cs ∧ e.span = span

/-- An attribute covers its name, or all from its name to its value. -/
def Attribute.ReadFrom (source : List Char) (a : Attribute) : Prop :=
  a.name.span.Covers source a.name.value.toList ∧
    match a.value with
    | none => a.span = a.name.span
    | some v =>
      ∃ before behind cs,
        (∀ c ∈ before ++ behind, isTagBlank c = true) ∧
          v.value.ReadFrom source v.span cs ∧
          a.span = ⟨a.name.span.start, v.span.stop⟩ ∧
          a.span.Covers source (a.name.value.toList ++ (before ++ ('=' :: (behind ++ cs))))

/-- A start tag between its `<` and the mark that ends it. -/
structure StartTag.ReadFrom (source : List Char) (span : Span) (tag : StartTag) : Prop where
  name : tag.name.span.Covers source tag.name.value.toList
  attributes : ∀ a ∈ tag.attributes, a.ReadFrom source
  increasing : tag.attributes.Pairwise (·.span.stop ≤ ·.span.start)
  spaced : Span.Spaced source span.start span.stop (tag.name.span :: tag.attributes.map (·.span))

namespace Node

/-- An element that ends with the `/>` of its start tag. -/
structure SelfClosed (source : List Char) (span : Span) (tag : StartTag) (children : List Node)
    (mark : Span) : Prop where
  startTag : tag.ReadFrom source ⟨span.start + 1, mark.start⟩
  marked : mark.Covers source ['/', '>']
  stop : mark.stop = span.stop
  empty : children = []

/-- An element with a closing tag. Its children stand between the `>` of the start tag and the `</`
of the closing tag, which has the name of the start tag. -/
structure Closed (source : List Char) (span : Span) (tag : StartTag) (children : List Node)
    (enter leave name close : Span) : Prop where
  startTag : tag.ReadFrom source ⟨span.start + 1, enter.start⟩
  entered : enter.Covers source ['>']
  tiled : Span.Tiles enter.stop leave.start (children.map (·.span))
  left : leave.Covers source ['<', '/']
  named : name.Covers source tag.name.value.toList
  spaced : Span.Spaced source leave.stop close.start [name]
  marked : close.Covers source ['>']
  stop : close.stop = span.stop

/-- A node covers the text that it was read from. -/
def ReadFrom (source : List Char) : Node → Prop
  | text _ span content => span.Covers source content.toList
  | comment _ span content =>
    span.Covers source (['<', '!', '-', '-'] ++ content.toList ++ ['-', '-', '>'])
  | element _ span tag _ children =>
    (∃ inner, span.Covers source ('<' :: (inner ++ ['>']))) ∧
      ((∃ mark, SelfClosed source span tag children mark) ∨
        ∃ enter leave name close, Closed source span tag children enter leave name close)

end Node

theorem Span.Spaced.le {source : List Char} {low high : Nat} {ss : List Span}
    (h : Spaced source low high ss) : low ≤ high := by
  induction ss generalizing low with
  | nil =>
    obtain ⟨cs, hcs, -⟩ := h
    exact hcs.le
  | cons s ss ih =>
    obtain ⟨⟨cs, hcs, -⟩, hs, hrest⟩ := h
    exact Nat.le_trans hcs.le (Nat.le_trans hs (ih hrest))

theorem Span.Spaced.le_start {source : List Char} {low high : Nat} {ss : List Span}
    (h : Spaced source low high ss) : ∀ s ∈ ss, low ≤ s.start := by
  induction ss generalizing low with
  | nil => simp
  | cons s ss ih =>
    obtain ⟨⟨cs, hcs, -⟩, hs, hrest⟩ := h
    rw [List.forall_mem_cons]
    exact ⟨hcs.le, fun t ht => Nat.le_trans (Nat.le_trans hcs.le hs) (ih hrest t ht)⟩

theorem Span.Spaced.stop_le {source : List Char} {low high : Nat} {ss : List Span}
    (h : Spaced source low high ss) : ∀ s ∈ ss, s.stop ≤ high := by
  induction ss generalizing low with
  | nil => simp
  | cons s ss ih =>
    rw [List.forall_mem_cons]
    exact ⟨h.2.2.le, ih h.2.2⟩

theorem Span.Spaced.increasing {source : List Char} {low high : Nat} {ss : List Span}
    (h : Spaced source low high ss) : ss.Pairwise (·.stop ≤ ·.start) := by
  induction ss generalizing low with
  | nil => exact .nil
  | cons s ss ih => exact .cons h.2.2.le_start (ih h.2.2)

/-! ## Tokens -/

variable {source : List Char} {low high : Nat}

theorem ValuePhrase.readFrom {v : ValuePhrase} {cs : List Char}
    (hc : v.token.span.Covers source cs) (hs : v.token.value.Spells cs) :
    v.value.value.ReadFrom source v.value.span cs ∧ v.value.span = v.token.span := by
  cases v with
  | literal text => exact ⟨⟨hc, hs⟩, rfl⟩
  | expression e => exact ⟨⟨hc, hs, rfl⟩, rfl⟩

theorem ValuePhrase.next_token (v : ValuePhrase) : v.token.value.next = .tag := by
  cases v <;> rfl

/-- The tokens of an attribute. -/
theorem AttributePhrase.readFrom {a : AttributePhrase} {rest : List (Located Token)}
    (h : Joined source .tag low high (a.tokens ++ rest)) :
    a.toAttribute.ReadFrom source ∧
      Span.CoversAll source isTagBlank ⟨low, a.toAttribute.span.start⟩ ∧
      a.toAttribute.span.start ≤ a.toAttribute.span.stop ∧
      Joined source .tag a.toAttribute.span.stop high rest := by
  cases a with
  | bare name =>
    obtain ⟨hgap, ⟨cs, hcs, rfl⟩, hrest⟩ := h
    exact ⟨⟨hcs, rfl⟩, hgap, hcs.le, hrest⟩
  | valued name equals value =>
    obtain ⟨hgap, ⟨cs, hname, rfl⟩, ⟨before, hbefore, hblank⟩, ⟨ds, hequals, rfl⟩,
      ⟨behind, hbehind, hblank'⟩, ⟨es, hcovers, hspells⟩, hrest⟩ := h
    obtain ⟨hvalue, hspan⟩ := value.readFrom hcovers hspells
    rw [value.next_token, ← hspan] at hrest
    rw [← hspan] at hcovers hbehind
    have hall := hname.append (hbefore.append (hequals.append (hbehind.append hcovers)))
    rw [toAttribute_valued]
    refine ⟨⟨hname, before, behind, es, List.forall_mem_append.mpr ⟨hblank, hblank'⟩, hvalue, rfl,
      hall⟩, hgap, hall.le, hrest⟩

theorem AttributePhrase.readFromAll {as : List AttributePhrase} {t : Located Token}
    {rest : List (Located Token)}
    (h : Joined source .tag low high (as.flatMap (·.tokens) ++ t :: rest)) :
    (∀ a ∈ as, a.toAttribute.ReadFrom source) ∧
      Span.Spaced source low t.span.start (as.map (·.toAttribute.span)) ∧
      (∃ cs, t.span.Covers source cs ∧ t.value.Spells cs) ∧
      Joined source t.value.next t.span.stop high rest := by
  induction as generalizing low with
  | nil => exact ⟨by simp, h⟩
  | cons a as ih =>
    rw [List.flatMap_cons, List.append_assoc] at h
    obtain ⟨ha, hgap, hle, hrest⟩ := readFrom h
    obtain ⟨has, hspaced, hlast⟩ := ih hrest
    exact ⟨List.forall_mem_cons.mpr ⟨ha, has⟩, ⟨hgap, hle, hspaced⟩, hlast⟩

/-- The tokens of a start tag, and the mark that ends it. -/
theorem TagPhrase.readFrom {tag : TagPhrase} {t : Located Token} {rest : List (Located Token)}
    (h : Joined source .content low high (tag.tokens ++ t :: rest)) :
    low = tag.opening.start ∧ tag.opening.Covers source ['<'] ∧
      tag.startTag.ReadFrom source ⟨tag.opening.start + 1, t.span.start⟩ ∧
      (∃ cs, t.span.Covers source cs ∧ t.value.Spells cs) ∧
      Joined source t.value.next t.span.stop high rest := by
  obtain ⟨hlow, ⟨cs, hopening, rfl⟩, hgap, ⟨ds, hname, rfl⟩, hrest⟩ := h
  obtain ⟨hattributes, hspaced, hlast⟩ := AttributePhrase.readFromAll hrest
  have hstop : tag.opening.stop = tag.opening.start + 1 := hopening.stop_eq
  have hall : Span.Spaced source (tag.opening.start + 1) t.span.start
      (tag.startTag.name.span :: tag.startTag.attributes.map (·.span)) := by
    rw [startTag, List.map_map, ← hstop]
    exact ⟨hgap, hname.le, hspaced⟩
  refine ⟨hlow, hopening, ⟨hname, ?_, ?_, hall⟩, hlast⟩
  · rintro a ha
    obtain ⟨b, hb, rfl⟩ := List.mem_map.mp ha
    exact hattributes b hb
  · exact List.pairwise_map.mp (List.pairwise_cons.mp hall.increasing).2

namespace Phrase

theorem span_tree (p : Phrase) : p.tree.span = p.span := by
  cases p <;> rw [tree] <;> rfl

/-- The tokens of phrases between tags: the nodes that they denote tile what they cover. -/
theorem readFrom_treeAll {ps : List Phrase} {rest : List (Located Token)}
    (hw : WellFormedAll ps) (h : Joined source .content low high (tokensAll ps ++ rest)) :
    ∃ mid, Span.Tiles low mid ((treeAll ps).map (·.span)) ∧
      (∀ n ∈ Node.walkAll (treeAll ps), n.ReadFrom source) ∧
      Joined source .content mid high rest := by
  induction ps using list_induction generalizing low rest with
  | nil => exact ⟨low, rfl, by simp [treeAll, Node.walkAll], h⟩
  | text content ps ih =>
    obtain ⟨(hlow : low = content.span.start), ⟨cs, hcs, rfl⟩, hrest⟩ := h
    subst hlow
    obtain ⟨mid, htiles, hnodes, hlast⟩ := ih hw.2 hrest
    exact ⟨mid, ⟨rfl, hcs.le, htiles⟩, List.forall_mem_cons.mpr ⟨hcs, hnodes⟩, hlast⟩
  | comment content ps ih =>
    obtain ⟨(hlow : low = content.span.start), ⟨cs, hcs, rfl⟩, hrest⟩ := h
    subst hlow
    obtain ⟨mid, htiles, hnodes, hlast⟩ := ih hw.2 hrest
    exact ⟨mid, ⟨rfl, hcs.le, htiles⟩, List.forall_mem_cons.mpr ⟨hcs, hnodes⟩, hlast⟩
  | selfClosing tag close ps ih =>
    simp only [tokensAll, tokens, List.append_assoc, List.singleton_append] at h
    obtain ⟨rfl, hopening, htag, ⟨cs, hclose, rfl⟩, hrest⟩ := TagPhrase.readFrom h
    obtain ⟨mid, htiles, hnodes, hlast⟩ := ih hw.2 hrest
    have hle : tag.opening.stop ≤ close.start := hopening.stop_eq ▸ htag.spaced.le
    obtain ⟨between, hall, -⟩ := hopening.join hclose hle
    have hnode : (selfClosing tag close).tree.ReadFrom source := by
      rw [tree, span_selfClosing]
      exact ⟨⟨between ++ ['/'], by simpa using hall⟩, .inl ⟨close, htag, hclose, rfl, rfl⟩⟩
    refine ⟨mid, ?_, List.forall_mem_cons.mpr ⟨hnode, hnodes⟩, hlast⟩
    rw [treeAll, List.map_cons, span_tree, span_selfClosing]
    exact ⟨rfl, hall.le, htiles⟩
  | enclosing tag enter children leave name close ps ihc ih =>
    simp only [tokensAll, tokens, List.append_assoc, List.cons_append, List.nil_append] at h
    obtain ⟨rfl, hopening, htag, ⟨cs, henter, rfl⟩, hinside⟩ := TagPhrase.readFrom h
    obtain ⟨⟨hn, -, hwc⟩, hw⟩ := hw
    obtain ⟨mid, hchildren, hbelow, (hmid : mid = leave.start), ⟨ds, hleave, rfl⟩, hgap,
      ⟨es, hname, rfl⟩, hgap', ⟨fs, hclose, rfl⟩, hrest⟩ := ihc hwc hinside
    subst hmid
    obtain ⟨high', htiles, hnodes, hlast⟩ := ih hw hrest
    have hspaced : Span.Spaced source leave.stop close.start [name.span] :=
      ⟨hgap, hname.le, hgap'⟩
    have hle : tag.opening.stop ≤ close.start :=
      calc tag.opening.stop
        _ ≤ enter.start := hopening.stop_eq ▸ htag.spaced.le
        _ ≤ enter.stop := henter.le
        _ ≤ leave.start := hchildren.le
        _ ≤ leave.stop := hleave.le
        _ ≤ close.start := hspaced.le
    obtain ⟨between, hall, -⟩ := hopening.join hclose hle
    have hnode : (enclosing tag enter children leave name close).tree.ReadFrom source := by
      rw [tree, span_enclosing]
      refine ⟨⟨between, by simpa using hall⟩, .inr ⟨enter, leave, name.span, close, htag, henter,
        hchildren, hleave, ?_, hspaced, hclose, rfl⟩⟩
      exact hn ▸ hname
    refine ⟨high', ?_, ?_, hlast⟩
    · rw [treeAll, List.map_cons, span_tree, span_enclosing]
      exact ⟨rfl, hall.le, htiles⟩
    · have hwalk : (enclosing tag enter children leave name close).tree.walk =
          (enclosing tag enter children leave name close).tree :: Node.walkAll (treeAll children) := by
        rw [tree, Node.walk]
      rw [treeAll, Node.walkAll, hwalk, List.cons_append, List.forall_mem_cons,
        List.forall_mem_append]
      exact ⟨hnode, hbelow, hnodes⟩

end Phrase

/-! ## Templates -/

namespace Node

theorem span_erase (n : Node) : n.erase.span = n.span := by
  cases n <;> rfl

theorem map_span_eraseAll (ns : List Node) : (eraseAll ns).map (·.span) = ns.map (·.span) := by
  induction ns with
  | nil => rfl
  | cons n ns ih => simp [eraseAll, span_erase, ih]

theorem eraseAll_eq_nil_iff {ns : List Node} : eraseAll ns = [] ↔ ns = [] := by
  cases ns <;> simp [eraseAll]

section Erase
variable {source : List Char} {span : Span} {tag : StartTag} {children : List Node}

theorem selfClosed_eraseAll {mark : Span} :
    SelfClosed source span tag (eraseAll children) mark ↔
      SelfClosed source span tag children mark :=
  ⟨fun h => ⟨h.startTag, h.marked, h.stop, eraseAll_eq_nil_iff.mp h.empty⟩,
    fun h => ⟨h.startTag, h.marked, h.stop, eraseAll_eq_nil_iff.mpr h.empty⟩⟩

theorem closed_eraseAll {enter leave name close : Span} :
    Closed source span tag (eraseAll children) enter leave name close ↔
      Closed source span tag children enter leave name close := by
  have hspans := map_span_eraseAll children
  exact ⟨fun h => ⟨h.startTag, h.entered, hspans ▸ h.tiled, h.left, h.named, h.spaced, h.marked,
      h.stop⟩,
    fun h => ⟨h.startTag, h.entered, hspans ▸ h.tiled, h.left, h.named, h.spaced, h.marked,
      h.stop⟩⟩

end Erase

/-- Where a node was read from does not depend on what is stored. -/
theorem readFrom_erase {source : List Char} {n : Node} :
    n.erase.ReadFrom source ↔ n.ReadFrom source := by
  cases n with
  | element id span tag preserve children =>
    simp only [erase, ReadFrom, selfClosed_eraseAll, closed_eraseAll]
  | text id span content => rfl
  | comment id span content => rfl

theorem readFrom_numberAll {source : List Char} {ns : List Node}
    (h : ∀ n ∈ walkAll ns, n.ReadFrom source) (keep : Bool) (next : Nat) :
    ∀ n ∈ walkAll (numberAll keep next ns), n.ReadFrom source :=
  forall_walkAll_numberAll (fun _ => readFrom_erase) h keep next

theorem map_span_numberAll (keep : Bool) (next : Nat) (ns : List Node) :
    (numberAll keep next ns).map (·.span) = ns.map (·.span) := by
  rw [← map_span_eraseAll, eraseAll_numberAll, map_span_eraseAll]

end Node

namespace Template

/-- A parsed tree is a map of its source: the nodes at the top tile it, and every node below covers
the text that it was read from, an element up to the places of its tags, attributes and children. -/
theorem parse_lossless {source : String} {t : Template} (h : parse source = .ok t) :
    Span.Tiles 0 source.utf8ByteSize (t.map (·.span)) ∧
      ∀ n ∈ Node.walkAll t, n.ReadFrom source.toList := by
  obtain ⟨-, ps, hd, rfl⟩ := derives_of_parse h
  have hvalid := hd.tokens ▸ Phrase.valid_tokensAll ps
  have hjoined := Token.joined_lex hvalid
  rw [← hd.tokens, ← List.append_nil (Phrase.tokensAll ps)] at hjoined
  obtain ⟨mid, htiles, hnodes, (hlast : mid = source.utf8ByteSize)⟩ :=
    Phrase.readFrom_treeAll hd.wellFormed hjoined
  subst hlast
  refine ⟨?_, Node.readFrom_numberAll hnodes false 0⟩
  rw [number, Node.map_span_numberAll]
  exact htiles

/-- Places count bytes: behind a letter of two bytes in an attribute, the text of the element starts
at offset 10. -/
theorem parse_lossless_letters :
    ∃ t a y, parse "<b k='\u00fc'>y</b>" = .ok t ∧
      t = [.element 0 ⟨0, 15⟩ ⟨⟨"b", ⟨1, 2⟩⟩, [a]⟩ false [y]] ∧
      a = ⟨⟨"k", ⟨3, 4⟩⟩, some ⟨.literal "\u00fc", ⟨5, 9⟩⟩, ⟨3, 9⟩⟩ ∧
      y = .text 1 ⟨10, 11⟩ "y" ∧
      Span.Tiles 0 15 (t.map (·.span)) ∧
      a.ReadFrom "<b k='\u00fc'>y</b>".toList ∧
      ∀ cs, y.span.Covers "<b k='\u00fc'>y</b>".toList cs ↔ cs = ['y'] := by
  let phrases : List Phrase :=
    [.enclosing ⟨⟨0, 1⟩, ⟨"b", ⟨1, 2⟩⟩,
        [.valued ⟨"k", ⟨3, 4⟩⟩ ⟨4, 5⟩ (.literal ⟨"\u00fc", ⟨5, 9⟩⟩)]⟩ ⟨9, 10⟩
      [.text ⟨"y", ⟨10, 11⟩⟩] ⟨11, 13⟩ ⟨"b", ⟨13, 14⟩⟩ ⟨14, 15⟩]
  have hlex : Token.lex "<b k='\u00fc'>y</b>" = Phrase.tokensAll phrases := by decide +kernel
  have hparse := parse_of_derives (by rw [hlex]; rfl)
    ⟨hlex.symm, ⟨rfl, List.pairwise_singleton _ _, trivial, trivial⟩, trivial⟩
  obtain ⟨htiles, hnodes⟩ := parse_lossless hparse
  have helement := hnodes _ (List.mem_cons_self ..)
  have htext := hnodes (.text 1 ⟨10, 11⟩ "y") (List.mem_cons_of_mem _ (List.mem_cons_self ..))
  -- An element with a text in it has a closing tag.
  obtain ⟨-, ⟨mark, hself⟩ | ⟨enter, leave, name, close, hclosed⟩⟩ := helement
  · cases hself.empty
  · have ha := hclosed.startTag.attributes _ (List.mem_singleton_self _)
    exact ⟨_, _, _, hparse, rfl, rfl, rfl, htiles, ha,
      fun cs => ⟨fun hcs => hcs.unique htext, fun hcs => hcs ▸ htext⟩⟩

end Template
end Stencil
