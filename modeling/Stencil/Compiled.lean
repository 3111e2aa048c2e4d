import Stencil.Directive

/-!
The compiled tree: chains have become branches, and elements have lost their directives. `walk`
enters every arm of a branch.
-/
namespace Stencil

inductive Compiled where
  | element (id : Nat) (tag : String) (attributes : List Attribute) (reference : Option String)
      (children : List Compiled) (span : Span)
  | text (id : Nat) (content : String) (span : Span)
  | comment (id : Nat) (content : String) (span : Span)
  /-- The arms in the order in which they are tried, and what stands when none is accepted. -/
  | branch (arms : List (Condition × Compiled)) (otherwise : Option Compiled) (span : Span)
  deriving Repr, Inhabited

namespace Compiled

/-- The number of the source node. A branch has none. -/
def id? : Compiled → Option Nat
  | element id .. | text id .. | comment id .. => some id
  | branch .. => none

def span : Compiled → Span
  | element _ _ _ _ _ span | text _ _ span | comment _ _ span | branch _ _ span => span

/-- The subtrees of a branch, in order. -/
def subtrees (arms : List (Condition × Compiled)) (otherwise : Option Compiled) :
    List Compiled :=
  arms.map (·.2) ++ otherwise.toList

mutual
/-- The node and all below it, depth first. -/
def walk : Compiled → List Compiled
  | element id tag attributes reference children span =>
    element id tag attributes reference children span :: walkAll children
  | text id content span => [text id content span]
  | comment id content span => [comment id content span]
  | branch arms otherwise span =>
    branch arms otherwise span :: (walkArms arms ++ walkOption otherwise)

def walkAll : List Compiled → List Compiled
  | [] => []
  | n :: ns => n.walk ++ walkAll ns

def walkArms : List (Condition × Compiled) → List Compiled
  | [] => []
  | (_, n) :: arms => n.walk ++ walkArms arms

def walkOption : Option Compiled → List Compiled
  | none => []
  | some n => n.walk
end

/-- The numbers in a tree, depth first. -/
def ids (nodes : List Compiled) : List Nat :=
  (walkAll nodes).filterMap id?

end Compiled
end Stencil
