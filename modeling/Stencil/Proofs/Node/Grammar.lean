import Stencil.Node.Parser
import Stencil.Proofs.Token.Ascending

/-!
# The grammar of templates

    nodes     ::= node*
    node      ::= text | comment | element
    element   ::= '<' name attribute* ('/>' | '>' nodes '</' name '>')
    attribute ::= name ('=' (literal | expression))?

A phrase is a derivation in this grammar: its leaves are tokens, and the tree that it denotes can
be read off it. The grammar is unambiguous, since no two lists of phrases have the same tokens.
-/
namespace Stencil

/-- The place from the first token to the last. -/
def Token.extent (ts : List (Located Token)) : Span :=
  ⟨(ts.head?.map (·.span.start)).getD 0, lastStop 0 ts⟩

inductive ValuePhrase where
  | literal (text : Located String)
  | expression (source : Located String)
  deriving DecidableEq, Repr

inductive AttributePhrase where
  | bare (name : Located String)
  | valued (name : Located String) (equals : Span) (value : ValuePhrase)
  deriving DecidableEq, Repr

/-- A start tag without the mark that ends it. -/
structure TagPhrase where
  opening : Span
  name : Located String
  attributes : List AttributePhrase
  deriving DecidableEq, Repr

inductive Phrase where
  | text (content : Located String)
  | comment (content : Located String)
  | selfClosing (tag : TagPhrase) (close : Span)
  | enclosing (tag : TagPhrase) (enter : Span) (children : List Phrase) (leave : Span)
      (name : Located String) (close : Span)
  deriving Repr

def Token.ofName (name : Located String) : Located Token :=
  ⟨.name name.value, name.span⟩

namespace ValuePhrase

def token : ValuePhrase → Located Token
  | literal text => ⟨.literal text.value, text.span⟩
  | expression source => ⟨.expression source.value, source.span⟩

def value : ValuePhrase → Located AttributeValue
  | literal text => ⟨.literal text.value, text.span⟩
  | expression source => ⟨.expression ⟨source.value, source.span⟩, source.span⟩

end ValuePhrase

namespace AttributePhrase

def tokens : AttributePhrase → List (Located Token)
  | bare name => [Token.ofName name]
  | valued name equals value => [Token.ofName name, ⟨.equals, equals⟩, value.token]

def name : AttributePhrase → Located String
  | bare name | valued name _ _ => name

def value? : AttributePhrase → Option (Located AttributeValue)
  | bare _ => none
  | valued _ _ value => some value.value

def toAttribute (a : AttributePhrase) : Attribute :=
  ⟨a.name, a.value?, Token.extent a.tokens⟩

end AttributePhrase

namespace TagPhrase

def tokens (t : TagPhrase) : List (Located Token) :=
  ⟨.tagOpen, t.opening⟩ :: Token.ofName t.name :: t.attributes.flatMap (·.tokens)

def startTag (t : TagPhrase) : StartTag :=
  ⟨t.name, t.attributes.map (·.toAttribute)⟩

/-- No two attributes have the same name. -/
def Distinct (t : TagPhrase) : Prop :=
  (t.attributes.map (·.name.value)).Nodup

end TagPhrase

namespace Phrase

/-- Induction over a list of phrases, with the list inside an element as well as the list behind
it. -/
@[elab_as_elim]
theorem list_induction {P : List Phrase → Prop} (nil : P [])
    (text : ∀ content ps, P ps → P (.text content :: ps))
    (comment : ∀ content ps, P ps → P (.comment content :: ps))
    (selfClosing : ∀ tag close ps, P ps → P (.selfClosing tag close :: ps))
    (enclosing : ∀ tag enter children leave name close ps, P children → P ps →
      P (.enclosing tag enter children leave name close :: ps))
    (ps : List Phrase) : P ps :=
  @Phrase.rec_1 (fun p => ∀ ps, P ps → P (p :: ps)) P
    (fun content ps hp => text content ps hp)
    (fun content ps hp => comment content ps hp)
    (fun tag close ps hp => selfClosing tag close ps hp)
    (fun tag enter children leave name close hc ps hp =>
      enclosing tag enter children leave name close ps hc hp)
    nil (fun _ ps h hp => h ps hp) ps

mutual
def tokens : Phrase → List (Located Token)
  | text content => [⟨.text content.value, content.span⟩]
  | comment content => [⟨.comment content.value, content.span⟩]
  | selfClosing tag close => tag.tokens ++ [⟨.selfClose, close⟩]
  | enclosing tag enter children leave name close =>
    tag.tokens ++ ⟨.tagClose, enter⟩ ::
      (tokensAll children ++ [⟨.closeTagOpen, leave⟩, Token.ofName name, ⟨.tagClose, close⟩])

def tokensAll : List Phrase → List (Located Token)
  | [] => []
  | p :: ps => p.tokens ++ tokensAll ps
end

def span (p : Phrase) : Span :=
  Token.extent p.tokens

mutual
/-- The node that a phrase denotes, not numbered yet. -/
def tree : Phrase → Node
  | text content => .text 0 (text content).span content.value
  | comment content => .comment 0 (comment content).span content.value
  | selfClosing tag close => .element 0 (selfClosing tag close).span tag.startTag false []
  | enclosing tag enter children leave name close =>
    .element 0 (enclosing tag enter children leave name close).span tag.startTag false
      (treeAll children)

def treeAll : List Phrase → List Node
  | [] => []
  | p :: ps => p.tree :: treeAll ps
end

mutual
/-- Closing names are those of their start tags, and attribute names are distinct. -/
def WellFormed : Phrase → Prop
  | text _ => True
  | comment _ => True
  | selfClosing tag _ => tag.Distinct
  | enclosing tag _ children _ name _ =>
    name.value = tag.name.value ∧ tag.Distinct ∧ WellFormedAll children

def WellFormedAll : List Phrase → Prop
  | [] => True
  | p :: ps => p.WellFormed ∧ WellFormedAll ps
end

/-- A derivation of a list of tokens. -/
structure Derives (ps : List Phrase) (ts : List (Located Token)) : Prop where
  tokens : tokensAll ps = ts
  wellFormed : WellFormedAll ps

end Phrase

/-! ## Places

A place from the first token to the last one is worked out once for each kind of phrase. -/

theorem Token.extent_append_singleton (t : Located Token) (ts : List (Located Token))
    (u : Located Token) : extent (t :: ts ++ [u]) = ⟨t.span.start, u.span.stop⟩ := by
  rw [extent, lastStop, List.getLast?_concat]
  rfl

@[simp] theorem AttributePhrase.toAttribute_bare (name : Located String) :
    (bare name).toAttribute = ⟨name, none, name.span⟩ := rfl
@[simp] theorem AttributePhrase.toAttribute_valued (name : Located String) (equals : Span)
    (value : ValuePhrase) :
    (valued name equals value).toAttribute =
      ⟨name, some value.value, ⟨name.span.start, value.value.span.stop⟩⟩ := by
  cases value <;> rfl

namespace Phrase

@[simp] theorem span_text (content : Located String) : (text content).span = content.span := rfl
@[simp] theorem span_comment (content : Located String) :
    (comment content).span = content.span := rfl
@[simp] theorem span_selfClosing (tag : TagPhrase) (close : Span) :
    (selfClosing tag close).span = ⟨tag.opening.start, close.stop⟩ := by
  rw [span, tokens, TagPhrase.tokens, Token.extent_append_singleton]
@[simp] theorem span_enclosing (tag : TagPhrase) (enter : Span) (children : List Phrase)
    (leave : Span) (name : Located String) (close : Span) :
    (enclosing tag enter children leave name close).span = ⟨tag.opening.start, close.stop⟩ := by
  have h := Token.extent_append_singleton ⟨.tagOpen, tag.opening⟩
    (Token.ofName tag.name :: (tag.attributes.flatMap (·.tokens) ++ ⟨.tagClose, enter⟩ ::
      (tokensAll children ++ [⟨.closeTagOpen, leave⟩, Token.ofName name]))) ⟨.tagClose, close⟩
  rw [span, tokens, TagPhrase.tokens, ← h]
  simp

end Phrase

/-! ## No ambiguity -/

/-- Behind the attributes of a start tag: the next token belongs to no attribute. -/
def Token.EndsAttributes : List (Located Token) → Prop
  | [] => True
  | t :: _ => t.value = .tagClose ∨ t.value = .selfClose

/-- Behind the nodes of a list: the text ends, or an element does. -/
def Token.EndsNodes : List (Located Token) → Prop
  | [] => True
  | t :: _ => t.value = .closeTagOpen

theorem ValuePhrase.token_injective {v w : ValuePhrase} (h : v.token = w.token) : v = w := by
  obtain ⟨⟨v, s⟩⟩ | ⟨⟨v, s⟩⟩ := v <;> obtain ⟨⟨w, u⟩⟩ | ⟨⟨w, u⟩⟩ := w <;>
    simp_all [token]

@[simp] theorem Token.ofName_inj {a b : Located String} : ofName a = ofName b ↔ a = b := by
  obtain ⟨a, s⟩ := a
  obtain ⟨b, u⟩ := b
  simp [ofName]

open Token (EndsAttributes EndsNodes)

/-- Attributes begin with a name, so an `=` belongs to the name in front of it. -/
theorem TagPhrase.attributes_ne_equals {as : List AttributePhrase}
    {rest ts : List (Located Token)} {equals : Span} (hr : EndsAttributes rest) :
    as.flatMap (·.tokens) ++ rest ≠ ⟨.equals, equals⟩ :: ts := by
  intro h
  cases as with
  | nil =>
    rw [List.flatMap_nil, List.nil_append] at h
    subst h
    simp [EndsAttributes] at hr
  | cons a as => cases a <;> simp [AttributePhrase.tokens, Token.ofName] at h

theorem TagPhrase.attributes_inj {as bs : List AttributePhrase} {rest rest' : List (Located Token)}
    (h : as.flatMap (·.tokens) ++ rest = bs.flatMap (·.tokens) ++ rest')
    (hr : EndsAttributes rest) (hr' : EndsAttributes rest') : as = bs ∧ rest = rest' := by
  induction as generalizing bs with
  | nil =>
    cases bs with
    | nil => exact ⟨rfl, h⟩
    | cons b bs =>
      rw [List.flatMap_nil, List.nil_append] at h
      subst h
      cases b <;> simp [AttributePhrase.tokens, EndsAttributes, Token.ofName] at hr
  | cons a as ih =>
    cases bs with
    | nil =>
      rw [List.flatMap_nil, List.nil_append] at h
      subst h
      cases a <;> simp [AttributePhrase.tokens, EndsAttributes, Token.ofName] at hr'
    | cons b bs =>
      rw [List.flatMap_cons, List.flatMap_cons, List.append_assoc, List.append_assoc] at h
      cases a with
      | bare n =>
        cases b with
        | bare m =>
          obtain ⟨hn, h⟩ := List.cons.inj h
          obtain ⟨rfl, rfl⟩ := ih h
          exact ⟨by rw [Token.ofName_inj.mp hn], rfl⟩
        | valued m equals v => exact absurd (List.cons.inj h).2 (attributes_ne_equals hr)
      | valued n equals v =>
        cases b with
        | bare m => exact absurd (List.cons.inj h).2.symm (attributes_ne_equals hr')
        | valued m equals' w =>
          simp only [AttributePhrase.tokens, List.cons_append, List.nil_append, List.cons.injEq,
            Token.ofName_inj, Located.mk.injEq, true_and] at h
          obtain ⟨rfl, rfl, hv, h⟩ := h
          obtain ⟨rfl, rfl⟩ := ih h
          exact ⟨by rw [ValuePhrase.token_injective hv], rfl⟩

theorem TagPhrase.tokens_inj {a b : TagPhrase} {rest rest' : List (Located Token)}
    (h : a.tokens ++ rest = b.tokens ++ rest') (hr : EndsAttributes rest)
    (hr' : EndsAttributes rest') : a = b ∧ rest = rest' := by
  obtain ⟨opening, name, as⟩ := a
  obtain ⟨opening', name', bs⟩ := b
  simp only [tokens, List.cons_append, List.cons.injEq, Token.ofName_inj, Located.mk.injEq,
    true_and] at h
  obtain ⟨rfl, rfl, h⟩ := h
  obtain ⟨rfl, rfl⟩ := attributes_inj h hr hr'
  exact ⟨rfl, rfl⟩

theorem TagPhrase.valid_tokens (tag : TagPhrase) : ∀ t ∈ tag.tokens, t.value ≠ .invalid := by
  have hattribute (a : AttributePhrase) : ∀ t ∈ a.tokens, t.value ≠ .invalid := by
    cases a with
    | bare name => simp [AttributePhrase.tokens, Token.ofName]
    | valued name equals value =>
      cases value <;> simp [AttributePhrase.tokens, Token.ofName, ValuePhrase.token]
  simp only [tokens, List.forall_mem_cons, List.mem_flatMap]
  refine ⟨by simp, by simp [Token.ofName], ?_⟩
  rintro t ⟨a, -, ht⟩
  exact hattribute a t ht

namespace Phrase

/-- The first token of a phrase neither ends the text nor closes an element. -/
theorem not_endsNodes (p : Phrase) (rest : List (Located Token)) :
    ¬ EndsNodes (p.tokens ++ rest) := by
  cases p <;> simp [tokens, TagPhrase.tokens, EndsNodes]

mutual
/-- A phrase is determined by its tokens, and so is where it ends. -/
theorem tokens_append_inj {p q : Phrase} {rest rest' : List (Located Token)}
    (h : p.tokens ++ rest = q.tokens ++ rest') : p = q ∧ rest = rest' := by
  cases p with
  | text c =>
    cases q with
    | text d =>
      obtain ⟨c, s⟩ := c
      obtain ⟨d, u⟩ := d
      simpa [tokens, and_assoc] using h
    | _ => simp [tokens, TagPhrase.tokens] at h
  | comment c =>
    cases q with
    | comment d =>
      obtain ⟨c, s⟩ := c
      obtain ⟨d, u⟩ := d
      simpa [tokens, and_assoc] using h
    | _ => simp [tokens, TagPhrase.tokens] at h
  | selfClosing tag close =>
    cases q with
    | selfClosing tag' close' =>
      simp only [tokens, List.append_assoc] at h
      obtain ⟨rfl, hc⟩ := TagPhrase.tokens_inj h (.inr rfl) (.inr rfl)
      simpa using hc
    | enclosing tag' enter children leave name close' =>
      simp only [tokens, List.append_assoc] at h
      have hc := (TagPhrase.tokens_inj h (.inr rfl) (.inl rfl)).2
      simp at hc
    | _ => simp [tokens, TagPhrase.tokens] at h
  | enclosing tag enter children leave name close =>
    cases q with
    | selfClosing tag' close' =>
      simp only [tokens, List.append_assoc] at h
      have hc := (TagPhrase.tokens_inj h (.inl rfl) (.inr rfl)).2
      simp at hc
    | enclosing tag' enter' children' leave' name' close' =>
      simp only [tokens, List.append_assoc] at h
      obtain ⟨rfl, hc⟩ := TagPhrase.tokens_inj h (.inl rfl) (.inl rfl)
      simp only [List.cons_append, List.append_assoc, List.cons.injEq] at hc
      obtain ⟨rfl, hl⟩ := tokensAll_append_inj hc.2 rfl rfl
      simp only [List.cons.injEq, Token.ofName_inj, Located.mk.injEq, true_and] at hc hl
      obtain ⟨rfl, rfl, rfl, hr⟩ := hl
      exact ⟨by rw [hc.1], hr⟩
    | _ => simp [tokens, TagPhrase.tokens] at h

theorem tokensAll_append_inj {ps qs : List Phrase} {rest rest' : List (Located Token)}
    (h : tokensAll ps ++ rest = tokensAll qs ++ rest') (hr : EndsNodes rest)
    (hr' : EndsNodes rest') : ps = qs ∧ rest = rest' := by
  cases ps with
  | nil =>
    cases qs with
    | nil => exact ⟨rfl, h⟩
    | cons q qs =>
      simp only [tokensAll, List.nil_append, List.append_assoc] at h
      exact absurd (h ▸ hr) (not_endsNodes q _)
  | cons p ps =>
    cases qs with
    | nil =>
      simp only [tokensAll, List.nil_append, List.append_assoc] at h
      exact absurd (h ▸ hr') (not_endsNodes p _)
    | cons q qs =>
      simp only [tokensAll, List.append_assoc] at h
      obtain ⟨rfl, hs⟩ := tokens_append_inj h
      obtain ⟨rfl, hrest⟩ := tokensAll_append_inj hs hr hr'
      exact ⟨rfl, hrest⟩
end

/-- The grammar is unambiguous. -/
theorem tokensAll_injective : Function.Injective tokensAll := by
  intro ps qs h
  exact (tokensAll_append_inj (congrArg (· ++ []) h) trivial trivial).1

/-- Every token of a phrase is one that the grammar names. -/
theorem valid_tokensAll (ps : List Phrase) : ∀ t ∈ tokensAll ps, t.value ≠ .invalid := by
  induction ps using list_induction with
  | nil => simp [tokensAll]
  | text content ps ih | comment content ps ih => simpa [tokensAll, tokens] using ih
  | selfClosing tag close ps ih =>
    simp only [tokensAll, tokens, List.forall_mem_append, List.forall_mem_singleton]
    exact ⟨⟨tag.valid_tokens, by simp⟩, ih⟩
  | enclosing tag enter children leave name close ps ihc ih =>
    simp only [tokensAll, tokens, List.forall_mem_append, List.forall_mem_cons]
    exact ⟨⟨tag.valid_tokens, by simp, ihc, by simp [Token.ofName]⟩, ih⟩

end Phrase
end Stencil
