import Stencil.Node

/-!
Numbering a template: nodes get the numbers 0, 1, ... in depth-first order, and each element
learns whether comments among its children are significant, which a `<template>` with
`preserve-comments` decides for all below it.
-/
namespace Stencil

namespace Node

mutual
/-- The tree with numbers from `next` on, in a scope that keeps comments or not. -/
def number (keep : Bool) (next : Nat) : Node → Node
  | element _ span tag _ children =>
    let keep := keep || tag.preservesComments
    element next span tag keep (numberAll keep (next + 1) children)
  | text _ span content => text next span content
  | comment _ span content => comment next span content

def numberAll (keep : Bool) (next : Nat) : List Node → List Node
  | [] => []
  | n :: ns => n.number keep next :: numberAll keep (next + n.size) ns
end

mutual
/-- Whether `number` would change nothing. -/
def isNumbered (keep : Bool) (next : Nat) : Node → Bool
  | element id _ tag preserve children =>
    id == next && preserve == (keep || tag.preservesComments) &&
      isNumberedAll preserve (next + 1) children
  | text id _ _ => id == next
  | comment id _ _ => id == next

def isNumberedAll (keep : Bool) (next : Nat) : List Node → Bool
  | [] => true
  | n :: ns => n.isNumbered keep next && isNumberedAll keep (next + n.size) ns
end

end Node

namespace Template

def number (t : Template) : Template :=
  Node.numberAll false 0 t

def isNumbered (t : Template) : Bool :=
  Node.isNumberedAll false 0 t

end Template
end Stencil
