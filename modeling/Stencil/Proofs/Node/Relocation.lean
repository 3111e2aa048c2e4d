import Stencil.Proofs.Node.Depth
import Stencil.Proofs.Numbering
import Stencil.Proofs.Relocation

/-!
# Relocated trees

Numbering from a later number on is numbering, relocated. Tokens that come later in the source
derive in the same way: the derivation has other places, its tree has them too, and its elements are
as deep as before.
-/
namespace Stencil

namespace Node

mutual
def relocate (r : Relocation) : Node → Node
  | element id span tag preserve children =>
    element (r.node id) (span.relocate r.offset) (tag.relocate r.offset) preserve
      (relocateAll r children)
  | text id span content => text (r.node id) (span.relocate r.offset) content
  | comment id span content => comment (r.node id) (span.relocate r.offset) content

def relocateAll (r : Relocation) : List Node → List Node
  | [] => []
  | n :: ns => n.relocate r :: relocateAll r ns
end

@[simp] theorem sizeAll_relocateAll (r : Relocation) (ns : List Node) :
    sizeAll (relocateAll r ns) = sizeAll ns := by
  induction ns using siblings_induction with
  | nil => rfl
  | element id span tag preserve children ns hc hn =>
    simp [relocateAll, relocate, sizeAll, size, hc, hn]
  | text id span content ns hn | comment id span content ns hn =>
    simp [relocateAll, relocate, sizeAll, size, hn]

/-- What the numbers were before does not matter. -/
theorem numberAll_relocateAll (r : Relocation) (keep : Bool) (next k : Nat) (ns : List Node) :
    numberAll keep (next + k) (relocateAll r ns) =
      relocateAll ⟨(· + k), r.offset⟩ (numberAll keep next ns) := by
  induction ns using siblings_induction generalizing keep next with
  | nil => rfl
  | element id span tag preserve children ns hc hn =>
    have hchildren := hc (keep || tag.preservesComments) (next + 1)
    have hrest := hn keep (next + (sizeAll children + 1))
    rw [Nat.add_right_comm] at hchildren hrest
    simp [relocateAll, relocate, numberAll, number, size, hchildren, hrest]
  | text id span content ns hn | comment id span content ns hn =>
    have hrest := hn keep (next + 1)
    rw [Nat.add_right_comm] at hrest
    simp [relocateAll, relocate, numberAll, number, size, hrest]

theorem numberAll_append (keep : Bool) (next : Nat) (a b : List Node) :
    numberAll keep next (a ++ b) =
      numberAll keep next a ++ numberAll keep (next + sizeAll a) b := by
  induction a generalizing next with
  | nil => simp [numberAll, sizeAll]
  | cons n a ih => simp [numberAll, sizeAll, ih, Nat.add_assoc]

end Node

/-- Numbered behind another template, a template has raised numbers. -/
theorem Template.number_append (t u : Template) (r : Relocation) :
    number (t ++ Node.relocateAll r u) =
      number t ++ Node.relocateAll ⟨(· + Node.sizeAll t), r.offset⟩ (number u) := by
  have hraised := Node.numberAll_relocateAll r false 0 (Node.sizeAll t) u
  rw [number, Node.numberAll_append, hraised]
  rfl

variable (offset : Nat → Nat)

def ValuePhrase.relocate : ValuePhrase → ValuePhrase
  | literal text => literal (text.relocate offset)
  | expression source => expression (source.relocate offset)

def AttributePhrase.relocate : AttributePhrase → AttributePhrase
  | bare name => bare (name.relocate offset)
  | valued name equals value =>
    valued (name.relocate offset) (equals.relocate offset) (value.relocate offset)

def TagPhrase.relocate (tag : TagPhrase) : TagPhrase :=
  ⟨tag.opening.relocate offset, tag.name.relocate offset,
    tag.attributes.map (·.relocate offset)⟩

@[simp] theorem Token.ofName_relocate (name : Located String) :
    ofName (name.relocate offset) = (ofName name).relocate offset := rfl
@[simp] theorem ValuePhrase.token_relocate (v : ValuePhrase) :
    (v.relocate offset).token = v.token.relocate offset := by
  cases v <;> rfl
@[simp] theorem AttributePhrase.tokens_relocate (a : AttributePhrase) :
    (a.relocate offset).tokens = a.tokens.map (·.relocate offset) := by
  cases a <;> simp [relocate, tokens]
@[simp] theorem AttributePhrase.toAttribute_relocate (a : AttributePhrase) :
    (a.relocate offset).toAttribute = a.toAttribute.relocate offset := by
  obtain name | ⟨name, equals, _ | _⟩ := a <;> rfl

namespace TagPhrase
variable (tag : TagPhrase)

@[simp] theorem opening_relocate : (tag.relocate offset).opening = tag.opening.relocate offset := rfl
@[simp] theorem name_relocate : (tag.relocate offset).name = tag.name.relocate offset := rfl

@[simp] theorem tokens_relocate :
    (tag.relocate offset).tokens = tag.tokens.map (·.relocate offset) := by
  simp [relocate, tokens, List.flatMap_map, List.map_flatMap]
@[simp] theorem startTag_relocate :
    (tag.relocate offset).startTag = tag.startTag.relocate offset := by
  simp [relocate, startTag, StartTag.relocate]
@[simp] theorem distinct_relocate : (tag.relocate offset).Distinct ↔ tag.Distinct := by
  have hname (a : AttributePhrase) : (a.relocate offset).name.value = a.name.value := by
    cases a <;> rfl
  simp [Distinct, relocate, Function.comp_def, hname]

end TagPhrase

namespace Phrase

mutual
def relocate : Phrase → Phrase
  | text content => text (content.relocate offset)
  | comment content => comment (content.relocate offset)
  | selfClosing tag close => selfClosing (tag.relocate offset) (close.relocate offset)
  | enclosing tag enter children leave name close =>
    enclosing (tag.relocate offset) (enter.relocate offset) (relocateAll children)
      (leave.relocate offset) (name.relocate offset) (close.relocate offset)

def relocateAll : List Phrase → List Phrase
  | [] => []
  | p :: ps => p.relocate :: relocateAll ps
end

@[simp] theorem tokensAll_relocateAll (ps : List Phrase) :
    tokensAll (relocateAll offset ps) = (tokensAll ps).map (·.relocate offset) := by
  induction ps using list_induction with
  | nil => rfl
  | text content ps ih | comment content ps ih | selfClosing tag close ps ih =>
    simp [relocateAll, relocate, tokensAll, tokens, ih]
  | enclosing tag enter children leave name close ps ihc ih =>
    simp [relocateAll, relocate, tokensAll, tokens, ihc, ih]

@[simp] theorem treeAll_relocateAll (ps : List Phrase) :
    treeAll (relocateAll offset ps) = Node.relocateAll ⟨id, offset⟩ (treeAll ps) := by
  induction ps using list_induction with
  | nil => rfl
  | text content ps ih | comment content ps ih | selfClosing tag close ps ih =>
    simp [relocateAll, relocate, treeAll, tree, Node.relocateAll, Node.relocate, ih, Span.relocate]
  | enclosing tag enter children leave name close ps ihc ih =>
    simp [relocateAll, relocate, treeAll, tree, Node.relocateAll, Node.relocate, ihc, ih,
      Span.relocate]

@[simp] theorem wellFormedAll_relocateAll (ps : List Phrase) :
    WellFormedAll (relocateAll offset ps) ↔ WellFormedAll ps := by
  induction ps using list_induction with
  | nil => rfl
  | text content ps ih | comment content ps ih | selfClosing tag close ps ih =>
    simp [relocateAll, relocate, WellFormedAll, WellFormed, ih]
  | enclosing tag enter children leave name close ps ihc ih =>
    simp [relocateAll, relocate, WellFormedAll, WellFormed, ihc, ih]

@[simp] theorem levelsAll_relocateAll (above : Nat) (ps : List Phrase) :
    levelsAll above (relocateAll offset ps) = levelsAll above ps := by
  induction ps using list_induction generalizing above with
  | nil => rfl
  | text content ps ih | comment content ps ih | selfClosing tag close ps ih =>
    simp [relocateAll, relocate, levelsAll, levels, ih]
  | enclosing tag enter children leave name close ps ihc ih =>
    simp [relocateAll, relocate, levelsAll, levels, ihc, ih]

@[simp] theorem levelsAll_append (above : Nat) (ps qs : List Phrase) :
    levelsAll above (ps ++ qs) = levelsAll above ps ++ levelsAll above qs := by
  induction ps with
  | nil => rfl
  | cons p ps ih => simp [levelsAll, ih]

/-- Derivations one behind the other derive their tokens one behind the other. -/
theorem Derives.append {ps qs : List Phrase} {ts us : List (Located Token)} (h : Derives ps ts)
    (h' : Derives qs us) :
    Derives (ps ++ relocateAll offset qs) (ts ++ us.map (·.relocate offset)) := by
  refine ⟨?_, ?_⟩
  · rw [tokensAll_append, tokensAll_relocateAll, h.tokens, h'.tokens]
  · rw [wellFormedAll_append, wellFormedAll_relocateAll]
    exact ⟨h.wellFormed, h'.wellFormed⟩

end Phrase
end Stencil
