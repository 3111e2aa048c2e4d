import Stencil.Proofs.Node.Reading
import Stencil.Proofs.Node.Stored
import Stencil.Proofs.Text.Trimming
import Stencil.Proofs.Token.Concatenation

/-!
# Names and expressions in a template

Lexing takes a name from its first letter to its last character that a name may have, and of an
expression it leaves out the blanks at the ends. So the names of tags and attributes in a parsed tree
are never empty, no blank or line end is in them, and all expressions are trimmed.
-/
namespace Stencil

namespace Token

/-- A letter or `_`, and behind it only characters of names. -/
def IsName (name : String) : Prop :=
  ∃ c cs, name.toList = c :: cs ∧ isNameStart c = true ∧ ∀ d ∈ cs, isNameChar d = true

theorem IsName.ne_empty {name : String} (h : IsName name) : name.toList ≠ [] := by
  obtain ⟨c, cs, hname, -⟩ := h
  simp [hname]

theorem IsName.not_mem {name : String} (h : IsName name) {c : Char} (hs : isNameStart c = false)
    (hc : isNameChar c = false) : c ∉ name.toList := by
  obtain ⟨d, ds, hname, hd, hds⟩ := h
  rw [hname, List.mem_cons, not_or]
  constructor
  · rintro rfl
    cases hs.symm.trans hd
  · intro hmem
    cases hc.symm.trans (hds c hmem)

/-- What holds of the token of every piece holds of all tokens. -/
theorem forall_mem_lexFrom {P : Token → Prop}
    (h : ∀ {mode : Mode} {c cs token}, (mode.piece c cs).token = some token → P token)
    (mode : Mode) (pos : Nat) (cs : List Char) : ∀ t ∈ lexFrom mode pos cs, P t.value := by
  induction mode, cs using pieces_induction generalizing pos with
  | nil mode => simp [lexFrom]
  | cons mode c cs ih =>
    rw [lexFrom_cons, List.forall_mem_append, List.forall_mem_map]
    exact ⟨fun token ht => h (Option.mem_toList.mp ht), ih _⟩

theorem isName_piece {mode : Mode} {c : Char} {cs : List Char} {name : String}
    (h : (mode.piece c cs).token = some (.name name)) : IsName name := by
  revert h
  cases mode with
  | content =>
    simp only [Mode.piece, contentPiece]
    repeat' split
    all_goals rintro ⟨⟩
  | tag =>
    by_cases hstart : isTagBlank c = false ∧ isNameStart c = true
    · simp only [Mode.piece, tagPiece, hstart.1, Bool.false_eq_true, if_false, if_pos hstart.2]
      rintro ⟨⟩
      exact ⟨c, _, String.toList_ofList, hstart.2, fun d hd => List.mem_takeWhile_imp hd⟩
    · simp only [Mode.piece, tagPiece, literalPiece, expressionPiece]
      repeat' split
      all_goals rintro ⟨⟩
      simp_all

theorem trim_expression_piece {mode : Mode} {c : Char} {cs : List Char} {source : String}
    (h : (mode.piece c cs).token = some (.expression source)) : Text.trim source = source := by
  revert h
  cases mode with
  | content =>
    simp only [Mode.piece, contentPiece]
    repeat' split
    all_goals rintro ⟨⟩
  | tag =>
    simp only [Mode.piece, tagPiece, literalPiece, expressionPiece]
    repeat' split
    all_goals rintro ⟨⟩
    rw [Text.trim, String.toList_ofList, Text.trimChars_trimChars]

/-- A name is spelled as one, and an expression has no blanks at its ends. -/
def IsTidy : Token → Prop
  | name n => IsName n
  | expression source => Text.trim source = source
  | _ => True

theorem isTidy_piece {mode : Mode} {c : Char} {cs : List Char} {token : Token}
    (h : (mode.piece c cs).token = some token) : token.IsTidy := by
  cases token with
  | name n => exact isName_piece h
  | expression source => exact trim_expression_piece h
  | text _ | comment _ | tagOpen | closeTagOpen | tagClose | selfClose | equals | literal _
  | invalid => trivial

def Tidy (ts : List (Located Token)) : Prop :=
  ∀ t ∈ ts, t.value.IsTidy

theorem tidy_lex (source : String) : Tidy (lex source) :=
  forall_mem_lexFrom isTidy_piece .content 0 source.toList

theorem tidy_append {ts us : List (Located Token)} : Tidy (ts ++ us) ↔ Tidy ts ∧ Tidy us :=
  List.forall_mem_append

theorem tidy_cons {t : Located Token} {ts : List (Located Token)} :
    Tidy (t :: ts) ↔ t.value.IsTidy ∧ Tidy ts :=
  List.forall_mem_cons

end Token

open Token (Tidy IsName tidy_append tidy_cons)

def Attribute.IsTidy (a : Attribute) : Prop :=
  IsName a.name.value ∧
    ∀ e span, a.value = some ⟨.expression e, span⟩ → Text.trim e.source = e.source

/-- The names of an element and of its attributes are spelled as names, and the expressions are
trimmed. -/
def Node.IsTidy : Node → Prop
  | element _ _ tag _ _ => IsName tag.name.value ∧ ∀ a ∈ tag.attributes, a.IsTidy
  | text .. | comment .. => True

theorem AttributePhrase.isTidy {a : AttributePhrase} (h : Tidy a.tokens) :
    a.toAttribute.IsTidy := by
  cases a with
  | bare name =>
    refine ⟨h _ List.mem_cons_self, ?_⟩
    rintro _ _ ⟨⟩
  | valued name equals value =>
    obtain ⟨hname, -, hvalue, -⟩ := by simpa only [tokens, tidy_cons] using h
    refine ⟨hname, ?_⟩
    cases value with
    | literal value => rintro _ _ ⟨⟩
    | expression value =>
      rintro _ _ ⟨⟩
      exact hvalue

theorem TagPhrase.isTidy {tag : TagPhrase} (h : Tidy tag.tokens) :
    IsName tag.startTag.name.value ∧ ∀ a ∈ tag.startTag.attributes, a.IsTidy := by
  simp only [tokens, tidy_cons] at h
  refine ⟨h.2.1, ?_⟩
  rw [startTag, List.forall_mem_map]
  intro a ha
  exact AttributePhrase.isTidy fun t ht => h.2.2 t (List.mem_flatMap.mpr ⟨a, ha, ht⟩)

/-- The names and expressions of a tree are those of its tokens. -/
theorem Phrase.isTidy_treeAll {ps : List Phrase} (h : Tidy (tokensAll ps)) :
    ∀ n ∈ Node.walkAll (treeAll ps), n.IsTidy := by
  induction ps using list_induction with
  | nil => simp [treeAll, Node.walkAll]
  | text content ps ih | comment content ps ih =>
    exact List.forall_mem_cons.mpr ⟨trivial, ih (tidy_append.mp h).2⟩
  | selfClosing tag close ps ih =>
    simp only [tokensAll, tokens, tidy_append] at h
    exact List.forall_mem_cons.mpr ⟨TagPhrase.isTidy h.1.1, ih h.2⟩
  | enclosing tag enter children leave name close ps ihc ih =>
    simp only [tokensAll, tokens, tidy_append, tidy_cons] at h
    obtain ⟨⟨htag, -, hchildren, -⟩, hrest⟩ := h
    simp only [treeAll, tree, Node.walkAll, Node.walk, List.cons_append, List.forall_mem_cons,
      List.forall_mem_append]
    exact ⟨TagPhrase.isTidy htag, ihc hchildren, ih hrest⟩

namespace Template

theorem isNumbered_of_parse {source : String} {t : Template} (h : parse source = .ok t) :
    t.isNumbered = true := by
  obtain ⟨-, ps, -, rfl⟩ := derives_of_parse h
  exact isNumbered_number _

theorem isTidy_of_parse {source : String} {t : Template} (h : parse source = .ok t) :
    ∀ n ∈ Node.walkAll t, n.IsTidy := by
  obtain ⟨-, ps, hd, rfl⟩ := derives_of_parse h
  refine Node.forall_walkAll_numberAll (fun n => ?_) (Phrase.isTidy_treeAll ?_) false 0
  · cases n <;> rfl
  · exact hd.tokens ▸ Token.tidy_lex source

end Template
end Stencil
