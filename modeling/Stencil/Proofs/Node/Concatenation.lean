import Stencil.Proofs.Node.Relocation
import Stencil.Proofs.Token.Concatenation

/-!
# Templates one behind the other

A template ends between tags, so a template that stands behind it in a source is read as it would
be by itself, only later. Nothing of the first one is left over: no open element counts towards the
nesting limit. Two texts that meet are the exception, since they are read as one.
-/
namespace Stencil

namespace Node

def isText : Node → Bool
  | text .. => true
  | element .. | comment .. => false

theorem isText_number (keep : Bool) (next : Nat) (n : Node) :
    (n.number keep next).isText = n.isText := by
  cases n <;> rfl

theorem head?_numberAll (keep : Bool) (next : Nat) (ns : List Node) :
    (numberAll keep next ns).head?.any isText = ns.head?.any isText := by
  cases ns with
  | nil => rfl
  | cons n ns => exact isText_number keep next n

theorem getLast?_numberAll (keep : Bool) (next : Nat) (ns : List Node) :
    (numberAll keep next ns).getLast?.any isText = ns.getLast?.any isText := by
  induction ns using List.reverseRecOn with
  | nil => rfl
  | append_singleton ns n =>
    rw [numberAll_append]
    simp [numberAll, isText_number]

end Node

namespace Phrase

open Token (endMode lex)

/-- A derivation leads from between tags to between tags. -/
theorem endMode_tokensAll (ps : List Phrase) : endMode .content (tokensAll ps) = .content := by
  induction ps using list_induction with
  | nil => rfl
  | text content ps ih | comment content ps ih | selfClosing tag close ps ih =>
    simpa [tokensAll, tokens, Token.next] using ih
  | enclosing tag enter children leave name close ps ihc ih =>
    simpa [tokensAll, tokens, Token.next] using ih

/-- Only the token of a text is the last one of its phrase and a text. -/
theorem isText_of_getLast? {p : Phrase} :
    ∃ t, p.tokens.getLast? = some t ∧ (t.value.isText = true → p.tree.isText = true) := by
  cases p with
  | text content => exact ⟨_, rfl, fun _ => rfl⟩
  | comment content => exact ⟨_, rfl, fun h => by cases h⟩
  | selfClosing tag close => exact ⟨_, List.getLast?_concat, fun h => by cases h⟩
  | enclosing tag enter children leave name close =>
    refine ⟨⟨.tagClose, close⟩, ?_, fun h => by cases h⟩
    simp [tokens, List.getLast?_append, List.getLast?_cons]

theorem isText_of_last {ps : List Phrase} :
    ∀ t ∈ (tokensAll ps).getLast?, t.value.isText = true →
      (treeAll ps).getLast?.any Node.isText = true := by
  induction ps using List.reverseRecOn with
  | nil => intro t ht; cases ht
  | append_singleton ps p =>
    obtain ⟨u, hu, htext⟩ := p.isText_of_getLast?
    intro t ht hword
    rw [tokensAll_append, List.getLast?_append] at ht
    simp only [tokensAll, List.append_nil, hu, Option.some_or, Option.mem_some_iff] at ht
    subst ht
    simpa [treeAll] using htext hword

/-- A source that does not begin with `<` begins with a text. -/
theorem isText_of_head {source : String} {ps : List Phrase} (h : Derives ps (lex source)) {c : Char}
    (hc : source.toList.head? = some c) (hne : c ≠ '<') :
    (treeAll ps).head?.any Node.isText = true := by
  obtain ⟨cs, hcs⟩ := List.head?_eq_some_iff.mp hc
  obtain ⟨content, ts, hts⟩ : ∃ (content : Located String) (ts : List (Located Token)),
      tokensAll ps = ⟨.text content.value, content.span⟩ :: ts := by
    rw [h.tokens, lex, hcs, Token.lexFrom_cons]
    simp only [Token.Mode.piece, Token.contentPiece, if_neg hne]
    exact ⟨⟨_, _⟩, _, rfl⟩
  cases ps with
  | nil => cases hts
  | cons p ps =>
    cases p with
    | text content => rfl
    | _ => simp [tokensAll, tokens, TagPhrase.tokens] at hts

end Phrase

/-- What becomes of a template behind another one: numbers are raised by its nodes, and places by
its bytes. -/
def Relocation.behind (t : Template) (source : String) : Relocation :=
  ⟨(· + Node.sizeAll t), (· + source.utf8ByteSize)⟩

namespace Template

open Phrase (treeAll)
open Token (lex)

/-- A text stands at the end of the first template and at the beginning of the second. -/
def textsMeet (t u : Template) : Bool :=
  t.getLast?.any Node.isText && u.head?.any Node.isText

/-- Unless two texts meet, sources one behind the other are the templates one behind the other. -/
theorem parse_append {a b : String} {t u : Template} (ha : parse a = .ok t) (hb : parse b = .ok u)
    (h : textsMeet t u = false) :
    parse (a ++ b) = .ok (t ++ Node.relocateAll (.behind t a) u) := by
  obtain ⟨hna, ps, hda, rfl⟩ := derives_of_parse ha
  obtain ⟨hnb, qs, hdb, rfl⟩ := derives_of_parse hb
  have hlex : lex (a ++ b) = lex a ++ (lex b).map (·.relocate (· + a.utf8ByteSize)) := by
    refine Token.lex_append ?_
    rw [← hda.tokens]
    refine ⟨Phrase.valid_tokensAll ps, Phrase.endMode_tokensAll ps, ?_⟩
    intro token htoken hword c hc
    by_contra hne
    have hends := (Node.getLast?_numberAll false 0 _).trans
      (Phrase.isText_of_last token htoken hword)
    have hbegins := (Node.head?_numberAll false 0 _).trans (Phrase.isText_of_head hdb hc hne)
    rw [textsMeet, number, number, hends, hbegins] at h
    cases h
  have hd := hda.append (· + a.utf8ByteSize) hdb
  rw [← hlex] at hd
  have hn : Nesting.check (lex (a ++ b)) = .ok () := by
    rw [Nesting.check_ok_iff hd, Phrase.levelsAll_append, Phrase.levelsAll_relocateAll,
      Nesting.allows_append]
    exact ⟨(Nesting.check_ok_iff hda).mp hna, (Nesting.check_ok_iff hdb).mp hnb⟩
  rw [parse_of_derives hn hd, Phrase.treeAll_append, Phrase.treeAll_relocateAll, number_append,
    Relocation.behind, sizeAll_number]

end Template
end Stencil
