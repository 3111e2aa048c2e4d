import Stencil.Attribute
import Stencil.Text.Blank

/-!
The tree of a template source: elements, texts and comments. Each node has a number, its place
in depth-first order once the tree is numbered, and each element says whether comments among
its children are significant.
-/
namespace Stencil

inductive Node where
  | element (id : Nat) (span : Span) (tag : StartTag) (preserve : Bool) (children : List Node)
  | text (id : Nat) (span : Span) (content : String)
  | comment (id : Nat) (span : Span) (content : String)
  deriving Repr, Inhabited

/-- A template is its top-level nodes. -/
abbrev Template := List Node

namespace Node

def id : Node → Nat
  | element id .. | text id .. | comment id .. => id

def span : Node → Span
  | element _ span .. | text _ span _ | comment _ span _ => span

/-- A text of blanks only. -/
def isBlank : Node → Bool
  | text _ _ content => Text.isBlankText content
  | _ => false

def isComment : Node → Bool
  | comment .. => true
  | _ => false

mutual
/-- How many nodes the tree has. -/
def size : Node → Nat
  | element _ _ _ _ children => sizeAll children + 1
  | text .. => 1
  | comment .. => 1

def sizeAll : List Node → Nat
  | [] => 0
  | n :: ns => n.size + sizeAll ns
end

mutual
/-- The node and all below it, depth first. -/
def walk : Node → List Node
  | element id span tag preserve children =>
    element id span tag preserve children :: walkAll children
  | text id span content => [text id span content]
  | comment id span content => [comment id span content]

def walkAll : List Node → List Node
  | [] => []
  | n :: ns => n.walk ++ walkAll ns
end

end Node
end Stencil
