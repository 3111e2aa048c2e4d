import Stencil.Nesting
import Stencil.Node.Numbering
import Stencil.Token.Lexer

/-!
Reads tokens into a template. The reader is a machine that takes one token at a time: a stack
of the elements whose closing tag is still to come, the nodes of the innermost one, and a phase
that says which tokens may follow. So the first token without a successor state is the one an
error names.
-/
namespace Stencil.Node

/-- An element between its start tag and its closing tag. -/
structure Frame where
  /-- Where its `<` stands. -/
  start : Nat
  tag : StartTag
  /-- The siblings in front of it. -/
  before : List Node
  deriving Repr

inductive Phase where
  /-- Between nodes. -/
  | content
  /-- After `<`. -/
  | tagName (start : Nat)
  /-- In a start tag; `bare` is an attribute name that no `=` has followed so far. -/
  | attributes (start : Nat) (tag : StartTag) (bare : Option (Located String))
  /-- After `=`. -/
  | value (start : Nat) (tag : StartTag) (name : Located String)
  /-- After `</`. -/
  | closingName
  | closingEnd (name : Located String)
  deriving Repr

structure Reader where
  stack : List Frame
  nodes : List Node
  phase : Phase
  deriving Repr

namespace Reader

def start : Reader :=
  ⟨[], [], .content⟩

/-- What may come next, as messages name it. -/
def expected (r : Reader) : List String :=
  match r.phase with
  | .content => if r.stack.isEmpty then ["'<'", "end of input"] else ["'<'", "'</'"]
  | .tagName _ => ["tag name"]
  | .attributes _ _ none => ["attribute", "'/>'", "'>'"]
  | .attributes _ _ (some _) => ["'='", "attribute", "'/>'", "'>'"]
  | .value .. => ["attribute value"]
  | .closingName => ["closing tag name"]
  | .closingEnd _ => ["'>'"]

def unexpected (r : Reader) (t : Located Token) : Except SyntaxError Reader :=
  .error ⟨t.span, .unexpected (some t.value) r.expected⟩

def push (r : Reader) (n : Node) : Reader :=
  ⟨r.stack, r.nodes ++ [n], .content⟩

/-- The start tag with an attribute that has no value. -/
def addBare (tag : StartTag) : Option (Located String) → StartTag
  | none => tag
  | some name => ⟨tag.name, tag.attributes ++ [⟨name, none, name.span⟩]⟩

def addValued (tag : StartTag) (name : Located String) (value : Located AttributeValue) :
    StartTag :=
  ⟨tag.name, tag.attributes ++
    [⟨name, some value, ⟨name.span.start, value.span.stop⟩⟩]⟩

/-- A finished element. Its closing name is checked first, then its attributes. -/
def finish (span : Span) (tag : StartTag) (closing : Option String) (children : List Node) :
    Except SyntaxError Node :=
  match closing.filter (· ≠ tag.name.value) with
  | some name => .error ⟨span, .mismatchedClosing name tag.name.value⟩
  | none =>
    match tag.duplicate? with
    | some name => .error ⟨span, .duplicateAttribute name tag.name.value⟩
    | none => .ok (.element 0 span tag false children)

def step (r : Reader) (t : Located Token) : Except SyntaxError Reader :=
  match r.phase, t.value with
  | .content, .text s => .ok (r.push (.text 0 t.span s))
  | .content, .comment s => .ok (r.push (.comment 0 t.span s))
  | .content, .tagOpen => .ok ⟨r.stack, r.nodes, .tagName t.span.start⟩
  | .content, .closeTagOpen =>
    if r.stack.isEmpty then r.unexpected t else .ok ⟨r.stack, r.nodes, .closingName⟩
  | .tagName start, .name n =>
    .ok ⟨r.stack, r.nodes, .attributes start ⟨⟨n, t.span⟩, []⟩ none⟩
  | .attributes start tag bare, .name n =>
    .ok ⟨r.stack, r.nodes, .attributes start (addBare tag bare) (some ⟨n, t.span⟩)⟩
  | .attributes start tag (some name), .equals =>
    .ok ⟨r.stack, r.nodes, .value start tag name⟩
  | .attributes start tag bare, .tagClose =>
    .ok ⟨⟨start, addBare tag bare, r.nodes⟩ :: r.stack, [], .content⟩
  | .attributes start tag bare, .selfClose =>
    (finish ⟨start, t.span.stop⟩ (addBare tag bare) none []).map r.push
  | .value start tag name, .literal s =>
    .ok ⟨r.stack, r.nodes,
      .attributes start (addValued tag name ⟨.literal s, t.span⟩) none⟩
  | .value start tag name, .expression e =>
    .ok ⟨r.stack, r.nodes,
      .attributes start (addValued tag name ⟨.expression ⟨e, t.span⟩, t.span⟩) none⟩
  | .closingName, .name n => .ok ⟨r.stack, r.nodes, .closingEnd ⟨n, t.span⟩⟩
  | .closingEnd name, .tagClose =>
    match r.stack with
    | [] => r.unexpected t
    | f :: stack =>
      (finish ⟨f.start, t.span.stop⟩ f.tag (some name.value) r.nodes).map
        (⟨stack, f.before, .content⟩ : Reader).push
  | _, _ => r.unexpected t

def run (r : Reader) : List (Located Token) → Except SyntaxError Reader
  | [] => .ok r
  | t :: ts => (r.step t).bind (·.run ts)

/-- The nodes, when no element is open. The place of the end is from the length of the input to
the end of the last token, which blanks inside a tag may follow. -/
def close (r : Reader) (length lastStop : Nat) : Except SyntaxError (List Node) :=
  match r.phase, r.stack with
  | .content, [] => .ok r.nodes
  | _, _ => .error ⟨⟨length, lastStop⟩, .unexpected none r.expected⟩

end Reader
end Stencil.Node

namespace Stencil.Template

/-- The tree that tokens of an input of `length` bytes stand for, not numbered yet. -/
def ofTokens (length : Nat) (tokens : List (Located Token)) : Except SyntaxError Template :=
  let lastStop := (tokens.getLast?.map (·.span.stop)).getD 0
  (Node.Reader.start.run tokens).bind (·.close length lastStop)

def parse (source : String) : Except SyntaxError Template := do
  let tokens := Token.lex source
  Nesting.check tokens
  let nodes ← ofTokens source.utf8ByteSize tokens
  return Template.number nodes

end Stencil.Template
